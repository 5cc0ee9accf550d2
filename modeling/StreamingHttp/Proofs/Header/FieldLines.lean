import StreamingHttp.Proofs.Header.BlockReading

/-!
# Header blocks which are written line by line

A field is written as its name, a colon, its value and a line end.  Such a line is read
as a field of this name, with the trimmed value.

A block is written as lines which are not empty, and an empty line.  The parser reads what
the lines say and stops at the empty one, whatever follows.
-/

namespace StreamingHttp

namespace Header

/-- A field as it is written. -/
structure FieldLine where
  name : Bytes
  value : Bytes
  lineEnd : LineEnd
  name_ne_nil : name ≠ []
  name_clean : ∀ b ∈ name, Byte.isSpace b = false ∧ b ≠ Byte.colon
  value_clean : ∀ b ∈ value, Byte.isLineEnd b = false

/-- The bytes of a name, checked one by one. -/
theorem FieldLine.clean_of_all {name : Bytes}
    (h : (name.all fun b => !Byte.isSpace b && b != Byte.colon) = true) :
    ∀ b ∈ name, Byte.isSpace b = false ∧ b ≠ Byte.colon := by
  simpa using h

/-- The content of a line is what is written before its line end. -/
theorem content_append_lineEnd {text : Bytes} (htext : Byte.cr ∉ text)
    (lineEnd : LineEnd) : content (text ++ lineEnd.bytes) = text := by
  have hself : Bytes.trimEnd (· == Byte.cr) text = text := by
    apply Bytes.trimEnd_eq_self
    intro b hb
    have hne : b ≠ Byte.cr := fun heq => htext (heq ▸ List.mem_of_mem_getLast? hb)
    simpa using hne
  cases lineEnd with
  | lf => rw [content, LineEnd.bytes, List.dropLast_concat, hself]
  | crlf =>
      rw [content, LineEnd.bytes,
        show text ++ [Byte.cr, Byte.lf] = text ++ [Byte.cr] ++ [Byte.lf] by simp,
        List.dropLast_concat, Bytes.trimEnd_append_of_forall (by simp), hself]

/-- A line end alone is an empty line. -/
theorem content_lineEnd (lineEnd : LineEnd) : content lineEnd.bytes = [] :=
  content_append_lineEnd List.not_mem_nil lineEnd

namespace FieldLine

/-- A field without its line end. -/
def text (field : FieldLine) : Bytes :=
  field.name ++ Byte.colon :: field.value

/-- The bytes of a field. -/
def bytes (field : FieldLine) : Bytes :=
  field.text ++ field.lineEnd.bytes

/-- The name of a field and its value without the blanks around it. -/
def header (field : FieldLine) : Bytes × Bytes :=
  (field.name, Bytes.trim Byte.isBlank field.value)

variable (field : FieldLine)

theorem isBlank_of_mem_name {b : UInt8} (hb : b ∈ field.name) :
    Byte.isBlank b = false := by
  have hspace := (field.name_clean b hb).1
  simp only [Byte.isSpace, Bool.or_eq_false_iff] at hspace
  exact hspace.1.1

theorem isLineEnd_of_mem_text {b : UInt8} (hb : b ∈ field.text) :
    Byte.isLineEnd b = false := by
  rcases List.mem_append.mp hb with hname | hrest
  · have hspace := (field.name_clean b hname).1
    simp only [Byte.isSpace, Bool.or_eq_false_iff] at hspace
    exact hspace.1.2
  · rcases List.mem_cons.mp hrest with rfl | hvalue
    · rfl
    · exact field.value_clean b hvalue

theorem notMem_text {b : UInt8} (hb : Byte.isLineEnd b = true) : b ∉ field.text := by
  intro hmem
  rw [field.isLineEnd_of_mem_text hmem] at hb
  cases hb

theorem text_ne_nil : field.text ≠ [] := by
  simp [text]

theorem isLine_bytes : Bytes.IsLine field.bytes :=
  field.lineEnd.isLine_append (field.notMem_text rfl)

theorem content_bytes : content field.bytes = field.text :=
  content_append_lineEnd (field.notMem_text rfl) field.lineEnd

/-- A field starts with its name, so it is no continuation. -/
theorem isContinuation_text : isContinuation field.text = false := by
  obtain ⟨b, rest, hname⟩ := List.exists_cons_of_ne_nil field.name_ne_nil
  have hblank := field.isBlank_of_mem_name (b := b) (by simp [hname])
  simp [isContinuation, text, hname, hblank]

theorem readField_text : readField field.text = .ok field.header := by
  have hcolon : Byte.colon ∉ field.name := fun hmem =>
    (field.name_clean Byte.colon hmem).2 rfl
  have hlast : field.name.getLast?.any Byte.isBlank = false := by
    cases hname : field.name.getLast? with
    | none => rfl
    | some b => exact field.isBlank_of_mem_name (List.mem_of_getLast? hname)
  rw [readField, text, Bytes.trimEnd_append_cons rfl, Delimited.cut_append_cons hcolon]
  simp only [field.name_ne_nil, if_false, hlast, Bool.false_eq_true, Bytes.trim_trimEnd,
    header]

end FieldLine

/-! ### Whole blocks -/

/-- A block of lines which are not empty ends at the empty line behind them, whatever
follows. -/
theorem ofParser_feed_lines_append {lines : List Bytes}
    (hlines : ∀ line ∈ lines,
      Bytes.IsLine line ∧ Byte.cr ∉ content line ∧ content line ≠ [])
    (blankEnd : LineEnd) (hasStartLine : Bool) (rest : Bytes) :
    Block.ofParser
        ((Parser.new hasStartLine).feed
          (lines.flatten ++ blankEnd.bytes ++ rest)).1
        ((Parser.new hasStartLine).feed
          (lines.flatten ++ blankEnd.bytes ++ rest)).2 =
      { closed := true
        startLine :=
          if hasStartLine then
            Bytes.trimEnd Byte.isBlank ((lines.map content).headD [])
          else []
        fields := fieldsOf
          (if hasStartLine then (lines.map content).tail else lines.map content)
        faults := faultsOf (if hasStartLine then 2 else 1) []
          (if hasStartLine then (lines.map content).tail else lines.map content)
        rest := rest } := by
  have hblank : Bytes.IsLine blankEnd.bytes :=
    blankEnd.isLine_append List.not_mem_nil
  have hall : ∀ line ∈ lines ++ [blankEnd.bytes],
      Bytes.IsLine line ∧ Byte.cr ∉ content line := by
    intro line hmem
    rcases List.mem_append.mp hmem with hmem | hlast
    · exact ⟨(hlines line hmem).1, (hlines line hmem).2.1⟩
    · rw [List.mem_singleton.mp hlast, content_lineEnd]
      exact ⟨hblank, by simp⟩
  have hbody : Block.body (lines ++ [blankEnd.bytes]) = lines.map content := by
    have hnonempty : ∀ text ∈ lines.map content, (decide (text ≠ [])) = true := by
      intro text htext
      obtain ⟨line, hmem, rfl⟩ := List.mem_map.mp htext
      exact decide_eq_true (hlines line hmem).2.2
    rw [Block.body, List.map_append, List.takeWhile_append_of_pos hnonempty]
    simp [content_lineEnd]
  have hclosed : Block.isClosed (lines ++ [blankEnd.bytes]) = true := by
    simp [Block.isClosed, content_lineEnd]
  have hrest : Block.restOf (lines ++ [blankEnd.bytes]) [] = [] := by
    rw [Block.restOf, if_pos hclosed, hbody]
    simp
  -- The block alone is read to its end, so what follows it comes back.
  have hblock := ofParser_feed_new hall List.not_mem_nil hasStartLine
  rw [hclosed, hrest, Block.fieldLines, hbody, List.append_nil, List.flatten_append,
    List.flatten_singleton] at hblock
  rw [Parser.feed_append]
  generalize (Parser.new hasStartLine).feed (lines.flatten ++ blankEnd.bytes) = fed
    at hblock ⊢
  simp only [Block.ofParser, Block.mk.injEq] at hblock ⊢
  obtain ⟨hdone, hstart, hfields, hfaults, hreturned⟩ := hblock
  rw [if_pos hdone]
  exact ⟨hdone, hstart, hfields, hfaults, by rw [hreturned, List.nil_append]⟩

theorem map_content_map_bytes (fields : List FieldLine) :
    (fields.map FieldLine.bytes).map content = fields.map FieldLine.text := by
  rw [List.map_map]
  exact List.map_congr_left fun field _ => field.content_bytes

/-- The lines of a block of fields are none of them empty. -/
theorem isLine_of_mem_map_bytes (fields : List FieldLine) :
    ∀ line ∈ fields.map FieldLine.bytes,
      Bytes.IsLine line ∧ Byte.cr ∉ content line ∧ content line ≠ [] := by
  intro line hmem
  obtain ⟨field, -, rfl⟩ := List.mem_map.mp hmem
  rw [field.content_bytes]
  exact ⟨field.isLine_bytes, field.notMem_text rfl, field.text_ne_nil⟩

end Header

end StreamingHttp
