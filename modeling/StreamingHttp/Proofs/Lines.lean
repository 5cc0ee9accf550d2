import StreamingHttp.Bytes
import Mathlib.Data.List.DropRight

/-!
# Lines of a text

A text is cut after every line feed.  `lines` gives the lines, each with its line
feed, and `unterminated` the bytes after the last line feed.  Together they are
the text, so a statement about all texts follows from one about all sequences of
lines and all bytes without a line feed.  `behind?` gives what follows the first line of
a kind.

A line which is written ends with a line feed, or with a carriage return and a line
feed.
-/

namespace StreamingHttp

namespace Bytes

/-- Cuts a text after every line feed: the lines, and the bytes after the last
line feed. -/
def cutLines : Bytes → List Bytes × Bytes
  | [] => ([], [])
  | b :: rest =>
      if b = Byte.lf then ([b] :: (cutLines rest).1, (cutLines rest).2)
      else
        match (cutLines rest).1 with
        | [] => ([], b :: (cutLines rest).2)
        | line :: later => ((b :: line) :: later, (cutLines rest).2)

/-- The lines of a text, each with its line feed. -/
def lines (text : Bytes) : List Bytes :=
  (cutLines text).1

/-- The bytes after the last line feed. -/
def unterminated (text : Bytes) : Bytes :=
  (cutLines text).2

/-- A line: one line feed, at the end. -/
def IsLine (line : Bytes) : Prop :=
  ∃ body, Byte.lf ∉ body ∧ line = body ++ [Byte.lf]

theorem cutLines_of_notMem {text : Bytes} (h : Byte.lf ∉ text) :
    cutLines text = ([], text) := by
  induction text with
  | nil => rfl
  | cons b rest ih =>
      rw [List.mem_cons, not_or] at h
      rw [cutLines, if_neg (Ne.symm h.1), ih h.2]

theorem cutLines_line_append {line : Bytes} (h : IsLine line) (rest : Bytes) :
    cutLines (line ++ rest) = (line :: lines rest, unterminated rest) := by
  obtain ⟨body, hbody, rfl⟩ := h
  induction body with
  | nil => rfl
  | cons b body ih =>
      rw [List.mem_cons, not_or] at hbody
      rw [List.cons_append, List.cons_append, cutLines, if_neg (Ne.symm hbody.1),
        ih hbody.2]

@[simp] theorem lines_line_append {line : Bytes} (h : IsLine line)
    (rest : Bytes) : lines (line ++ rest) = line :: lines rest := by
  rw [lines, cutLines_line_append h]

@[simp] theorem unterminated_line_append {line : Bytes} (h : IsLine line)
    (rest : Bytes) : unterminated (line ++ rest) = unterminated rest := by
  rw [unterminated, cutLines_line_append h]

theorem lines_of_notMem {text : Bytes} (h : Byte.lf ∉ text) : lines text = [] := by
  rw [lines, cutLines_of_notMem h]

theorem unterminated_of_notMem {text : Bytes} (h : Byte.lf ∉ text) :
    unterminated text = text := by
  rw [unterminated, cutLines_of_notMem h]

/-- A text is empty of line feeds or starts with a line. -/
theorem notMem_or_line_append (text : Bytes) :
    Byte.lf ∉ text ∨ ∃ line rest, IsLine line ∧ text = line ++ rest := by
  induction text with
  | nil => exact .inl (by simp)
  | cons b text ih =>
      by_cases hb : b = Byte.lf
      · exact .inr ⟨[b], text, ⟨[], by simp, by simp [hb]⟩, rfl⟩
      · rcases ih with hnone | ⟨_, rest, ⟨body, hbody, rfl⟩, rfl⟩
        · exact .inl (by simp [hnone, Ne.symm hb])
        · exact .inr ⟨b :: body ++ [Byte.lf], rest,
            ⟨b :: body, by simp [hbody, Ne.symm hb], rfl⟩, by simp⟩

/-- A text is its lines and its unterminated bytes. -/
theorem exists_lines (text : Bytes) :
    (∀ line ∈ lines text, IsLine line) ∧ Byte.lf ∉ unterminated text
      ∧ text = (lines text).flatten ++ unterminated text := by
  induction hlength : text.length using Nat.strong_induction_on
    generalizing text with
  | _ length ih =>
      rcases notMem_or_line_append text with hnone | ⟨line, rest, hline, rfl⟩
      · rw [lines_of_notMem hnone, unterminated_of_notMem hnone]
        exact ⟨by simp, hnone, rfl⟩
      · have hshorter : rest.length < length := by
          obtain ⟨body, -, rfl⟩ := hline
          simp at hlength
          omega
        obtain ⟨hlines, htail, hrest⟩ := ih rest.length hshorter rest rfl
        rw [lines_line_append hline, unterminated_line_append hline]
        refine ⟨?_, htail, ?_⟩
        · intro other hother
          rcases List.mem_cons.mp hother with rfl | hmem
          · exact hline
          · exact hlines other hmem
        · rw [List.flatten_cons, List.append_assoc, ← hrest]

theorem isLine_of_splitLine? {text line rest : Bytes}
    (h : splitLine? text = some (line, rest)) : IsLine line := by
  unfold splitLine? at h
  split at h
  · cases h
  · next b after hdrop =>
      cases h
      have hb := List.head?_dropWhile_not (· != Byte.lf) text
      rw [hdrop] at hb
      refine ⟨text.takeWhile (· != Byte.lf), ?_, by simpa using hb⟩
      intro hmem
      have := List.mem_takeWhile_imp hmem
      simp at this

theorem notMem_of_splitLine? {text : Bytes} (h : splitLine? text = none) :
    Byte.lf ∉ text := by
  unfold splitLine? at h
  split at h
  · next hdrop =>
      intro hmem
      have := List.dropWhile_eq_nil_iff.mp hdrop Byte.lf hmem
      simp at this
  · cases h

/-! ### What follows a line of a kind -/

/-- What follows the first line of a kind.  None if there is no such line.  The tail is
what follows the last line. -/
def behind? (p : Bytes → Bool) (lines : List Bytes) (tail : Bytes) : Option Bytes :=
  match lines.dropWhile fun line => !p line with
  | [] => none
  | _ :: later => some (later.flatten ++ tail)

variable {p q : Bytes → Bool} {line : Bytes} {lines : List Bytes} {tail : Bytes}

theorem behind?_cons_of_pos (h : p line = true) :
    behind? p (line :: lines) tail = some (lines.flatten ++ tail) := by
  rw [behind?, List.dropWhile_cons_of_neg (by simp [h])]

theorem behind?_cons_of_neg (h : p line = false) :
    behind? p (line :: lines) tail = behind? p lines tail := by
  rw [behind?, List.dropWhile_cons_of_pos (by simp [h])]
  rfl

/-- A line at least is not left. -/
theorem length_lt_of_behind?_eq_some (hlines : ∀ line ∈ lines, line ≠ []) {rest : Bytes}
    (h : behind? p lines tail = some rest) :
    rest.length < (lines.flatten ++ tail).length := by
  induction lines with
  | nil => cases h
  | cons line later ih =>
      obtain ⟨hline, hlater⟩ := List.forall_mem_cons.mp hlines
      have hpos := List.length_pos_iff.mpr hline
      rw [List.flatten_cons, List.append_assoc, List.length_append]
      cases hkind : p line with
      | true =>
          rw [behind?_cons_of_pos hkind, Option.some.injEq] at h
          rw [h]
          omega
      | false =>
          rw [behind?_cons_of_neg hkind] at h
          have := ih hlater h
          omega

/-- A kind which is narrower leaves the same iff the first line of the wider kind is of
it. -/
theorem behind?_eq_iff (hlines : ∀ line ∈ lines, line ≠ [])
    (hnarrow : ∀ line, q line = true → p line = true) :
    behind? q lines tail = behind? p lines tail ↔
      ∀ line ∈ lines.find? p, q line = true := by
  induction lines with
  | nil => simp [behind?]
  | cons line later ih =>
      obtain ⟨-, hlater⟩ := List.forall_mem_cons.mp hlines
      cases hwide : p line with
      | false =>
          have hq : q line = false := by
            cases hq : q line with
            | false => rfl
            | true =>
                rw [hnarrow line hq] at hwide
                cases hwide
          rw [behind?_cons_of_neg hq, behind?_cons_of_neg hwide,
            List.find?_cons_of_neg (by simp [hwide])]
          exact ih hlater
      | true =>
          rw [behind?_cons_of_pos hwide, List.find?_cons_of_pos hwide]
          cases hq : q line with
          | true => simp [behind?_cons_of_pos hq, hq]
          | false =>
              -- What the narrower kind leaves lies further on.
              have hfurther : behind? q later tail ≠ some (later.flatten ++ tail) :=
                fun hsame => Nat.lt_irrefl _ (length_lt_of_behind?_eq_some hlater hsame)
              rw [behind?_cons_of_neg hq]
              simp [hfurther, hq]

end Bytes

/-! ### Line ends -/

/-- The two ways to end a line. -/
inductive LineEnd where
  | lf
  | crlf
  deriving DecidableEq, Repr

namespace LineEnd

/-- The bytes of a line end. -/
def bytes : LineEnd → Bytes
  | .lf => [Byte.lf]
  | .crlf => [Byte.cr, Byte.lf]

theorem ne_nil (lineEnd : LineEnd) : lineEnd.bytes ≠ [] := by
  cases lineEnd <;> simp [bytes]

theorem isLineEnd (lineEnd : LineEnd) :
    ∀ b ∈ lineEnd.bytes, Byte.isLineEnd b = true := by
  cases lineEnd <;> simp [bytes, Byte.isLineEnd]

/-- Bytes without a line feed and a line end make a line. -/
theorem isLine_append (lineEnd : LineEnd) {body : Bytes} (hbody : Byte.lf ∉ body) :
    Bytes.IsLine (body ++ lineEnd.bytes) := by
  cases lineEnd with
  | lf => exact ⟨body, hbody, rfl⟩
  | crlf =>
      refine ⟨body ++ [Byte.cr], ?_, by simp [bytes]⟩
      simp [hbody, Byte.lf, Byte.cr]

end LineEnd

end StreamingHttp
