import StreamingHttp.Proofs.Delimited
import StreamingHttp.Proofs.Header.BlockText
import StreamingHttp.Proofs.Header.FoldedText
import StreamingHttp.Proofs.Trim
import Mathlib.Data.List.Chain

/-!
# What the parser reads in a line

The parser reads a line as spans of the block.  This module says which bytes the
spans mark out: every line is cut into what the reference reads in it, and the
blanks and line ends around that.  What follows the text of a field or of a
continuation in its line is a gap, so it can stand between two pieces of a folded
value.
-/

namespace StreamingHttp

namespace Header

/-- The span marks out a text in a block; something follows the text. -/
def Span.Marks (span : Span) (block text after : Bytes) : Prop :=
  ∃ before, block = before ++ text ++ after ∧
    span = ⟨before.length, before.length + text.length⟩

namespace Span.Marks

variable {span : Span} {block text after : Bytes}

theorem slice_eq (h : span.Marks block text after) : span.slice block = text := by
  obtain ⟨before, rfl, rfl⟩ := h
  simp [Span.slice]

/-- A span marks out the same bytes when the block grows. -/
theorem append (h : span.Marks block text after) (line : Bytes) :
    span.Marks (block ++ line) text (after ++ line) := by
  obtain ⟨before, rfl, rfl⟩ := h
  exact ⟨before, by simp, rfl⟩

theorem isEmpty_eq (h : span.Marks block text after) :
    span.isEmpty = decide (text = []) := by
  obtain ⟨before, -, rfl⟩ := h
  cases text <;> simp [Span.isEmpty]

/-- From the start of one marked text to the end of another one behind it. -/
theorem extend {gap line indent piece rest : Bytes} {other : Span}
    (h : span.Marks block text gap) (hline : line = indent ++ piece ++ rest)
    (hother : other =
      ⟨block.length + indent.length,
        block.length + indent.length + piece.length⟩) :
    Span.Marks ⟨span.start, other.stop⟩ (block ++ line)
      (text ++ (gap ++ indent) ++ piece) rest := by
  obtain ⟨before, rfl, rfl⟩ := h
  refine ⟨before, by simp [hline], ?_⟩
  simp [hother]
  omega

end Span.Marks

/-! ### A line and its content -/

theorem trimEnd_isLineEnd_of_isLine {line : Bytes} (h : Bytes.IsLine line) :
    Bytes.trimEnd Byte.isLineEnd line = content line := by
  obtain ⟨body, hbody, rfl⟩ := h
  rw [content, List.dropLast_concat,
    Bytes.trimEnd_append_of_forall (by simp [Byte.isLineEnd])]
  refine Bytes.trimEnd_congr fun b hb => ?_
  have hlf : b ≠ Byte.lf := fun heq => hbody (heq ▸ hb)
  simp [Byte.isLineEnd, hlf]

theorem notMem_content_lf {line : Bytes} (h : Bytes.IsLine line) :
    Byte.lf ∉ content line := by
  obtain ⟨body, hbody, rfl⟩ := h
  intro hmem
  rw [content, List.dropLast_concat] at hmem
  exact hbody (Bytes.mem_of_mem_trimEnd hmem)

/-- A line is its content and a line end. -/
theorem exists_content_append {line : Bytes} (h : Bytes.IsLine line) :
    ∃ ends, line = content line ++ ends ∧
      (∀ b ∈ ends, Byte.isLineEnd b = true) ∧ Byte.lf ∈ ends := by
  obtain ⟨body, -, rfl⟩ := h
  obtain ⟨back, hback, hcr⟩ := Bytes.exists_trimEnd_append (· == Byte.cr) body
  refine ⟨back ++ [Byte.lf], ?_, ?_, by simp⟩
  · rw [content, List.dropLast_concat, ← List.append_assoc, ← hback]
  · intro b hb
    rcases List.mem_append.mp hb with hmem | hmem
    · have : b = Byte.cr := by simpa using hcr b hmem
      simp [Byte.isLineEnd, this]
    · simp [Byte.isLineEnd, List.mem_singleton.mp hmem]

/-- What follows the text of a line, its blanks included, is a gap. -/
theorem exists_trimEnd_content_append {line : Bytes} (h : Bytes.IsLine line) :
    ∃ gap, line = Bytes.trimEnd Byte.isBlank (content line) ++ gap ∧ IsGap gap := by
  obtain ⟨ends, hends, hclass, hlf⟩ := exists_content_append h
  obtain ⟨back, hback, hblank⟩ :=
    Bytes.exists_trimEnd_append Byte.isBlank (content line)
  refine ⟨back ++ ends, ?_, ?_, List.mem_append_right _ hlf⟩
  · rw [← List.append_assoc, ← hback, ← hends]
  · intro b hb
    rcases List.mem_append.mp hb with hmem | hmem
    · exact .inl (hblank b hmem)
    · exact .inr (hclass b hmem)

/-- Trimmed bytes of a line without carriage returns before its line end are a
piece. -/
theorem isPiece_trim {line text : Bytes} (hline : Bytes.IsLine line)
    (hcr : Byte.cr ∉ content line) (htext : ∀ b ∈ text, b ∈ content line) :
    IsPiece (Bytes.trim Byte.isBlank text) where
  isLineEnd_eq_false b hb := by
    have hmem := htext b (Bytes.mem_of_mem_trim hb)
    have hb₁ : b ≠ Byte.cr := fun heq => hcr (heq ▸ hmem)
    have hb₂ : b ≠ Byte.lf := fun heq => notMem_content_lf hline (heq ▸ hmem)
    simp [Byte.isLineEnd, hb₁, hb₂]
  head_not_blank := Bytes.eq_false_of_mem_head?_trim
  last_not_blank := Bytes.eq_false_of_mem_getLast?_trim

/-! ### Carriage returns -/

/-- A carriage return is followed by carriage returns up to the next line feed. -/
theorem eq_cr_of_isChain {text : Bytes}
    (h : (Byte.cr :: text).IsChain fun b next =>
      b = Byte.cr → next = Byte.cr ∨ next = Byte.lf)
    (hlf : Byte.lf ∉ text) : ∀ b ∈ text, b = Byte.cr := by
  induction text with
  | nil => simp
  | cons b text ih =>
      rw [List.mem_cons, not_or] at hlf
      rw [List.isChain_cons_cons] at h
      have hb : b = Byte.cr := by
        rcases h.1 rfl with hcr | heq
        · exact hcr
        · exact absurd heq.symm hlf.1
      subst hb
      intro other hother
      rcases List.mem_cons.mp hother with rfl | hmem
      · rfl
      · exact ih h.2 hlf.2 other hmem

/-- Where carriage returns only end lines, none is left in the content of one. -/
theorem CarriageReturnsEndLines.notMem_content {text line : Bytes}
    (h : CarriageReturnsEndLines text) (hline : Bytes.IsLine line)
    (hwithin : line <:+: text) : Byte.cr ∉ content line := by
  intro hmem
  obtain ⟨front, back, hsplit⟩ := List.append_of_mem hmem
  obtain ⟨ends, hends, -⟩ := exists_content_append hline
  have hsuffix : Byte.cr :: back <:+: text := by
    refine List.IsInfix.trans ⟨front, ends, ?_⟩ hwithin
    rw [← hsplit, ← hends]
  have hback : ∀ b ∈ back, b = Byte.cr := by
    have hchain := List.IsChain.infix h hsuffix
    refine eq_cr_of_isChain hchain fun hlf => ?_
    apply notMem_content_lf hline
    rw [hsplit]
    simp [hlf]
  -- The content does not end with a carriage return, and yet its last byte is one.
  have hlast : Byte.cr ∈ (content line).getLast? := by
    rcases List.eq_nil_or_concat' back with rfl | ⟨rest, last, rfl⟩
    · rw [hsplit, List.getLast?_concat]
      rfl
    · rw [hsplit, ← List.cons_append, ← List.append_assoc, List.getLast?_concat,
        hback last (by simp)]
      rfl
  have := Bytes.eq_false_of_mem_getLast?_trimEnd _ Byte.cr hlast
  simp at this

/-! ### The kinds of lines -/

section Reading

variable {line : Bytes}

theorem read_of_content_eq_nil (hline : Bytes.IsLine line)
    (hempty : content line = []) (expectStart : Bool) (offset : Nat) :
    Line.read expectStart offset line = .blank := by
  rw [Line.read, trimEnd_isLineEnd_of_isLine hline, hempty]

/-- Reading a line which is not empty, apart from its line end. -/
theorem read_eq_of_content_ne_nil (hline : Bytes.IsLine line)
    (hne : content line ≠ []) (expectStart : Bool) (offset : Nat) :
    Line.read expectStart offset line =
      let text := Bytes.trimEnd Byte.isBlank (content line)
      if expectStart then .start ⟨offset, offset + text.length⟩
      else if isContinuation (content line) then
        .continuation ⟨offset + Line.indent text, offset + text.length⟩
      else Line.ofFieldText offset text := by
  rw [Line.read, trimEnd_isLineEnd_of_isLine hline]
  obtain ⟨first, rest, hcontent⟩ := List.exists_cons_of_ne_nil hne
  rw [hcontent]
  rfl

/-- The start line is the line without the blanks at its end. -/
theorem read_start (hline : Bytes.IsLine line) (hne : content line ≠ [])
    (block : Bytes) :
    ∃ span after, Line.read true block.length line = .start span ∧
      span.Marks (block ++ line)
        (Bytes.trimEnd Byte.isBlank (content line)) after := by
  obtain ⟨gap, hgap, -⟩ := exists_trimEnd_content_append hline
  refine ⟨_, gap, read_eq_of_content_ne_nil hline hne _ _, block, ?_, rfl⟩
  rw [List.append_assoc, ← hgap]

/-- A continuation is its trimmed text, between blanks and a gap. -/
theorem read_continuation (hline : Bytes.IsLine line)
    (hkind : isContinuation (content line) = true) (offset : Nat) :
    ∃ indent gap, line = indent ++ Bytes.trim Byte.isBlank (content line) ++ gap ∧
      (∀ b ∈ indent, Byte.isBlank b = true) ∧ IsGap gap ∧
      Line.read false offset line = .continuation ⟨offset + indent.length,
        offset + indent.length +
          (Bytes.trim Byte.isBlank (content line)).length⟩ := by
  obtain ⟨gap, hgap, hisGap⟩ := exists_trimEnd_content_append hline
  have hne : content line ≠ [] := by
    intro hempty
    rw [hempty] at hkind
    cases hkind
  have hsplit := List.takeWhile_append_dropWhile (p := Byte.isBlank)
    (l := Bytes.trimEnd Byte.isBlank (content line))
  refine ⟨(Bytes.trimEnd Byte.isBlank (content line)).takeWhile Byte.isBlank, gap,
    ?_, fun b hb => List.mem_takeWhile_imp hb, hisGap, ?_⟩
  · rw [Bytes.trim, hsplit, ← hgap]
  · rw [read_eq_of_content_ne_nil hline hne]
    simp only [Bool.false_eq_true, if_false, hkind, if_true]
    rw [← hsplit, List.length_append, Nat.add_assoc, hsplit]
    rfl

/-- A malformed line is read as such. -/
theorem read_malformed (hline : Bytes.IsLine line) (hne : content line ≠ [])
    (hkind : isContinuation (content line) = false) {kind : FaultKind}
    (hfield : readField (content line) = .error kind) (offset : Nat) :
    Line.read false offset line = .malformed kind := by
  rw [read_eq_of_content_ne_nil hline hne]
  simp only [Bool.false_eq_true, if_false, hkind]
  rw [readField] at hfield
  rw [Line.ofFieldText]
  generalize Delimited.cut Byte.colon (Bytes.trimEnd Byte.isBlank (content line)) =
    divided at hfield ⊢
  rcases divided with ⟨name, _ | value⟩
  · cases hfield
    rfl
  · -- Both look at the last byte of the name: there is none, or it is a blank.
    rcases List.eq_nil_or_concat' name with rfl | ⟨front, last, rfl⟩
    · simp only [if_true, Except.error.injEq] at hfield
      rw [← hfield]
      rfl
    · simp only [List.append_eq_nil_iff, List.cons_ne_nil, and_false, if_false,
        List.getLast?_concat, Option.any_some] at hfield ⊢
      split at hfield
      · next hblank =>
          cases hfield
          rw [if_pos hblank]
      · cases hfield

/-- The text of a field is its name, which does not end with a blank, a colon, and
the value with the blanks before it. -/
theorem text_of_readField_eq_ok {name value : Bytes}
    (h : readField line = .ok (name, value)) :
    ∃ front last raw, name = front ++ [last] ∧ Byte.isBlank last = false ∧
      Byte.colon ∉ name ∧
      Bytes.trimEnd Byte.isBlank line = name ++ Byte.colon :: raw ∧
      value = Bytes.trim Byte.isBlank raw ∧
      Bytes.trim Byte.isBlank raw = raw.dropWhile Byte.isBlank := by
  unfold readField at h
  split at h
  · cases h
  · next cutName raw hcut =>
      obtain ⟨htext, hcolon⟩ := Delimited.eq_of_cut_eq_some hcut
      rcases List.eq_nil_or_concat' cutName with rfl | ⟨front, last, rfl⟩
      · simp at h
      · simp only [List.append_eq_nil_iff, List.cons_ne_nil, and_false, if_false,
          List.getLast?_concat, Option.any_some] at h
        split at h
        · cases h
        · next hblank =>
            simp only [Except.ok.injEq, Prod.mk.injEq] at h
            obtain ⟨rfl, rfl⟩ := h
            refine ⟨front, last, raw, rfl, by simpa using hblank, hcolon, htext,
              rfl, ?_⟩
            -- The text is trimmed at its end, and so is what follows the colon.
            rw [Bytes.trim, Bytes.trimEnd_eq_self]
            intro b hb
            apply Bytes.eq_false_of_mem_getLast?_trimEnd line b
            rw [htext, List.getLast?_append, List.getLast?_cons,
              Option.mem_def.mp hb]
            rfl

/-- The value of a field is a piece. -/
theorem isPiece_of_readField_eq_ok (hline : Bytes.IsLine line)
    (hcr : Byte.cr ∉ content line) {name value : Bytes}
    (h : readField (content line) = .ok (name, value)) : IsPiece value := by
  obtain ⟨_, _, raw, -, -, -, htext, rfl, -⟩ := text_of_readField_eq_ok h
  refine isPiece_trim hline hcr fun b hb => ?_
  apply Bytes.mem_of_mem_trimEnd (p := Byte.isBlank)
  rw [htext]
  simp [hb]

/-- The spans of a field, if its name does not end with a blank. -/
theorem ofFieldText_eq_field {name front raw : Bytes} {last : UInt8}
    (hname : name = front ++ [last]) (hlast : Byte.isBlank last = false)
    (hcolon : Byte.colon ∉ name) (offset : Nat) :
    Line.ofFieldText offset (name ++ Byte.colon :: raw) =
      .field ⟨offset, offset + name.length⟩
        ⟨offset + name.length + 1 + Line.indent raw,
          offset + (name ++ Byte.colon :: raw).length⟩ := by
  rw [Line.ofFieldText, Delimited.cut_append_cons hcolon]
  simp only [hname, List.getLast?_concat, hlast, Bool.false_eq_true, if_false]

/-- A field is its name, a colon, blanks, its trimmed value and a gap. -/
theorem read_field (hline : Bytes.IsLine line)
    (hkind : isContinuation (content line) = false) {name value : Bytes}
    (hfield : readField (content line) = .ok (name, value)) (offset : Nat) :
    ∃ indent gap,
      line = name ++ (Byte.colon :: indent) ++ value ++ gap ∧ IsGap gap ∧
      Line.read false offset line =
        .field ⟨offset, offset + name.length⟩
          ⟨offset + name.length + (Byte.colon :: indent).length,
            offset + name.length + (Byte.colon :: indent).length
              + value.length⟩ := by
  obtain ⟨gap, hgap, hisGap⟩ := exists_trimEnd_content_append hline
  obtain ⟨front, last, raw, hname, hlast, hcolon, htext, rfl, htrim⟩ :=
    text_of_readField_eq_ok hfield
  rw [htrim]
  have hsplit := List.takeWhile_append_dropWhile (p := Byte.isBlank) (l := raw)
  have hlength := congrArg List.length hsplit
  have hne : content line ≠ [] := by
    intro hempty
    rw [hempty] at htext
    simp [Bytes.trimEnd] at htext
  refine ⟨raw.takeWhile Byte.isBlank, gap, ?_, hisGap, ?_⟩
  · rw [List.append_assoc _ (Byte.colon :: _), List.cons_append, hsplit, ← htext,
      ← hgap]
  · rw [read_eq_of_content_ne_nil hline hne]
    simp only [Bool.false_eq_true, if_false, hkind]
    rw [htext, ofFieldText_eq_field hname hlast hcolon]
    simp only [List.length_append, List.length_cons] at *
    simp only [Line.indent, Line.field.injEq, Span.mk.injEq, true_and]
    omega

end Reading

end Header

end StreamingHttp
