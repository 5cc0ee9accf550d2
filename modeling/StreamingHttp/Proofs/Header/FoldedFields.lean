import StreamingHttp.Proofs.Header.FieldLines

/-!
# Header blocks with folded fields

A field may be written over several lines: behind its first line come continuations, each
of which starts with a blank and holds something else as well.  The texts of these lines,
without the blanks around them, are the pieces of the value.  The first line may have no
text behind its colon, and then it gives no piece.

A block of such fields has no faults, and the parser reads the pieces of each field joined
by one space.  It stops at the empty line, whatever follows.  So a block of fields on one
line each, with or without a start line before them, is read as it is written.
-/

namespace StreamingHttp

namespace Header

/-- A continuation as it is written. -/
structure ContinuationLine where
  text : Bytes
  lineEnd : LineEnd
  starts : isContinuation text = true
  clean : ∀ b ∈ text, Byte.isLineEnd b = false
  hasText : ∃ b ∈ text, Byte.isBlank b = false

namespace ContinuationLine

/-- The bytes of a continuation. -/
def bytes (line : ContinuationLine) : Bytes :=
  line.text ++ line.lineEnd.bytes

/-- What a continuation adds to a value. -/
def piece (line : ContinuationLine) : Bytes :=
  Bytes.trim Byte.isBlank line.text

variable (line : ContinuationLine)

theorem notMem_text {b : UInt8} (hb : Byte.isLineEnd b = true) : b ∉ line.text := by
  intro hmem
  rw [line.clean b hmem] at hb
  cases hb

theorem isLine_bytes : Bytes.IsLine line.bytes :=
  line.lineEnd.isLine_append (line.notMem_text rfl)

theorem content_bytes : content line.bytes = line.text :=
  content_append_lineEnd (line.notMem_text rfl) line.lineEnd

theorem text_ne_nil : line.text ≠ [] := by
  obtain ⟨b, hb, -⟩ := line.hasText
  exact List.ne_nil_of_mem hb

end ContinuationLine

/-- A field and the lines which continue it. -/
structure FoldedField extends FieldLine where
  continuations : List ContinuationLine

namespace FoldedField

/-- The lines of a field. -/
def lines (field : FoldedField) : List Bytes :=
  field.bytes :: field.continuations.map ContinuationLine.bytes

/-- The lines of a field without their line ends. -/
def texts (field : FoldedField) : List Bytes :=
  field.text :: field.continuations.map ContinuationLine.text

/-- The texts which the lines of a field give to its value. -/
def pieces (field : FoldedField) : List Bytes :=
  (Bytes.trim Byte.isBlank field.value ::
    field.continuations.map ContinuationLine.piece).filter (· ≠ [])

/-- The name of a field, and its pieces joined by one space. -/
def folded (field : FoldedField) : Bytes × Bytes :=
  (field.name, [Byte.space].intercalate field.pieces)

theorem map_content_lines (field : FoldedField) :
    field.lines.map content = field.texts := by
  rw [lines, texts, List.map_cons, field.content_bytes, List.map_map]
  congr 1
  exact List.map_congr_left fun line _ => line.content_bytes

/-- No line of a field is empty. -/
theorem isLine_of_mem_lines (field : FoldedField) :
    ∀ line ∈ field.lines,
      Bytes.IsLine line ∧ Byte.cr ∉ content line ∧ content line ≠ [] := by
  intro line hmem
  rcases List.mem_cons.mp hmem with rfl | hmem
  · rw [field.content_bytes]
    exact ⟨field.isLine_bytes, field.notMem_text rfl, field.text_ne_nil⟩
  · obtain ⟨continuation, -, rfl⟩ := List.mem_map.mp hmem
    rw [continuation.content_bytes]
    exact ⟨continuation.isLine_bytes, continuation.notMem_text rfl,
      continuation.text_ne_nil⟩

end FoldedField

/-! ### Continuations -/

section Continuations

variable (continuations : List ContinuationLine)

theorem isContinuation_of_mem_map_text :
    ∀ text ∈ continuations.map ContinuationLine.text, isContinuation text = true := by
  intro text hmem
  obtain ⟨line, -, rfl⟩ := List.mem_map.mp hmem
  exact line.starts

/-- The fields behind some continuations do not depend on them. -/
theorem fieldsOf_continuations_append (later : List Bytes) :
    fieldsOf (continuations.map ContinuationLine.text ++ later) = fieldsOf later := by
  induction continuations with
  | nil => rfl
  | cons line rest ih =>
      rw [List.map_cons, List.cons_append, fieldsOf, if_pos line.starts]
      exact ih

/-- Continuations behind a field are no faults, and it is a field which comes before the
lines behind them. -/
theorem faultsOf_continuations_append (number : Nat) {before : List Bytes}
    (hbefore : followsField before = true) (later : List Bytes) :
    faultsOf number before (continuations.map ContinuationLine.text ++ later) =
      faultsOf (number + continuations.length)
        ((continuations.map ContinuationLine.text).reverse ++ before) later := by
  induction continuations generalizing number before with
  | nil => rfl
  | cons line rest ih =>
      have hnext : followsField (line.text :: before) = true := by
        rw [followsField_cons_of_continuation before line.starts]
        exact hbefore
      rw [List.map_cons, List.cons_append, faultsOf, ih (number + 1) hnext, faultKind?,
        if_pos line.starts, if_pos hbefore, List.length_cons, List.reverse_cons,
        List.append_assoc, Nat.add_right_comm, ← Nat.add_assoc]
      rfl

end Continuations

/-! ### Folded fields -/

/-- The texts of further fields do not start with a continuation. -/
theorem takeWhile_isContinuation_texts (fields : List FoldedField) :
    (fields.flatMap FoldedField.texts).takeWhile isContinuation = [] := by
  cases fields with
  | nil => rfl
  | cons field later =>
      rw [List.flatMap_cons, FoldedField.texts, List.cons_append,
        List.takeWhile_cons_of_neg (by simp [field.isContinuation_text])]

theorem fieldsOf_flatMap_texts (fields : List FoldedField) :
    fieldsOf (fields.flatMap FoldedField.texts) = fields.map FoldedField.folded := by
  induction fields with
  | nil => rfl
  | cons field later ih =>
      have hcontinued : (field.continuations.map ContinuationLine.text ++
          later.flatMap FoldedField.texts).takeWhile isContinuation =
          field.continuations.map ContinuationLine.text := by
        rw [List.takeWhile_append_of_pos
          (isContinuation_of_mem_map_text field.continuations),
          takeWhile_isContinuation_texts, List.append_nil]
      rw [List.flatMap_cons, FoldedField.texts, List.cons_append, fieldsOf,
        if_neg (by simp [field.isContinuation_text]), field.readField_text, hcontinued,
        fieldsOf_continuations_append, ih, List.map_cons, List.map_map]
      rfl

theorem faultsOf_flatMap_texts (number : Nat) (before : List Bytes)
    (fields : List FoldedField) :
    faultsOf number before (fields.flatMap FoldedField.texts) = [] := by
  induction fields generalizing number before with
  | nil => rfl
  | cons field later ih =>
      have hfollows : followsField (field.text :: before) = true := by
        rw [followsField_cons_of_not_continuation before field.isContinuation_text,
          field.readField_text]
        rfl
      rw [List.flatMap_cons, FoldedField.texts, List.cons_append, faultsOf,
        faultsOf_continuations_append field.continuations (number + 1) hfollows, ih,
        faultKind?, if_neg (by simp [field.isContinuation_text]), field.readField_text]
      rfl

/-- A block of folded fields is read as it is meant. -/
theorem ofParser_feed_foldedFields (fields : List FoldedField) (blankEnd : LineEnd)
    (rest : Bytes) :
    Block.ofParser
        ((Parser.new false).feed
          ((fields.flatMap FoldedField.lines).flatten ++ blankEnd.bytes ++ rest)).1
        ((Parser.new false).feed
          ((fields.flatMap FoldedField.lines).flatten ++ blankEnd.bytes ++ rest)).2 =
      { closed := true
        startLine := []
        fields := fields.map FoldedField.folded
        faults := []
        rest := rest } := by
  have hlines : ∀ line ∈ fields.flatMap FoldedField.lines,
      Bytes.IsLine line ∧ Byte.cr ∉ content line ∧ content line ≠ [] := by
    intro line hmem
    obtain ⟨field, -, hline⟩ := List.mem_flatMap.mp hmem
    exact field.isLine_of_mem_lines line hline
  have hcontents : (fields.flatMap FoldedField.lines).map content =
      fields.flatMap FoldedField.texts := by
    rw [List.map_flatMap]
    simp only [FoldedField.map_content_lines]
  rw [ofParser_feed_lines_append hlines blankEnd false rest, hcontents]
  simp only [Bool.false_eq_true, if_false, fieldsOf_flatMap_texts, faultsOf_flatMap_texts]

/-! ### Fields on one line -/

/-- A field which no line continues. -/
def FieldLine.alone (line : FieldLine) : FoldedField :=
  { line with continuations := [] }

theorem FieldLine.folded_alone (line : FieldLine) : line.alone.folded = line.header := by
  rw [FoldedField.folded, FoldedField.pieces, header]
  by_cases hempty : Bytes.trim Byte.isBlank line.value = [] <;> simp [alone, hempty]

theorem flatMap_texts_alone (fields : List FieldLine) :
    (fields.map FieldLine.alone).flatMap FoldedField.texts =
      fields.map FieldLine.text := by
  rw [List.flatMap_map]
  exact List.map_eq_flatMap.symm

theorem fieldsOf_map_text (fields : List FieldLine) :
    fieldsOf (fields.map FieldLine.text) = fields.map FieldLine.header := by
  rw [← flatMap_texts_alone, fieldsOf_flatMap_texts, List.map_map]
  exact List.map_congr_left fun line _ => line.folded_alone

theorem faultsOf_map_text (number : Nat) (before : List Bytes)
    (fields : List FieldLine) :
    faultsOf number before (fields.map FieldLine.text) = [] := by
  rw [← flatMap_texts_alone]
  exact faultsOf_flatMap_texts number before (fields.map FieldLine.alone)

/-- A block of fields is read as it is written. -/
theorem ofParser_feed_fields (fields : List FieldLine) (blankEnd : LineEnd)
    (rest : Bytes) :
    Block.ofParser
        ((Parser.new false).feed
          ((fields.map FieldLine.bytes).flatten ++ blankEnd.bytes ++ rest)).1
        ((Parser.new false).feed
          ((fields.map FieldLine.bytes).flatten ++ blankEnd.bytes ++ rest)).2 =
      { closed := true
        startLine := []
        fields := fields.map FieldLine.header
        faults := []
        rest := rest } := by
  rw [ofParser_feed_lines_append (isLine_of_mem_map_bytes fields) blankEnd false rest,
    map_content_map_bytes]
  simp only [Bool.false_eq_true, if_false, fieldsOf_map_text, faultsOf_map_text]

/-- So is a block with a start line before its fields. -/
theorem ofParser_feed_startLine {start : Bytes} (hstart : start ≠ [])
    (hclean : ∀ b ∈ start, Byte.isLineEnd b = false) (startEnd : LineEnd)
    (fields : List FieldLine) (blankEnd : LineEnd) (rest : Bytes) :
    Block.ofParser
        ((Parser.new true).feed (start ++ startEnd.bytes ++
          (fields.map FieldLine.bytes).flatten ++ blankEnd.bytes ++ rest)).1
        ((Parser.new true).feed (start ++ startEnd.bytes ++
          (fields.map FieldLine.bytes).flatten ++ blankEnd.bytes ++ rest)).2 =
      { closed := true
        startLine := Bytes.trimEnd Byte.isBlank start
        fields := fields.map FieldLine.header
        faults := []
        rest := rest } := by
  have hnone {b : UInt8} (hb : Byte.isLineEnd b = true) : b ∉ start := by
    intro hmem
    rw [hclean b hmem] at hb
    cases hb
  have hcontent : content (start ++ startEnd.bytes) = start :=
    content_append_lineEnd (hnone rfl) startEnd
  have hlines : ∀ line ∈ (start ++ startEnd.bytes) :: fields.map FieldLine.bytes,
      Bytes.IsLine line ∧ Byte.cr ∉ content line ∧ content line ≠ [] := by
    intro line hmem
    rcases List.mem_cons.mp hmem with rfl | hmem
    · rw [hcontent]
      exact ⟨startEnd.isLine_append (hnone rfl), hnone rfl, hstart⟩
    · exact isLine_of_mem_map_bytes fields line hmem
  have hblock := ofParser_feed_lines_append hlines blankEnd true rest
  rw [List.flatten_cons] at hblock
  rw [hblock, List.map_cons, hcontent, map_content_map_bytes]
  simp only [if_true, List.headD_cons, List.tail_cons, fieldsOf_map_text,
    faultsOf_map_text]

end Header

end StreamingHttp
