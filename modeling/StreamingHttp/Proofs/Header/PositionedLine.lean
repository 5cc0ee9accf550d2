import StreamingHttp.Header.Line
import StreamingHttp.Proofs.Delimited
import StreamingHttp.Proofs.Positions

/-!
# Reading a line at positions

A line may be read by looking at its bytes one by one: from its end backwards for what is
trimmed, then from its start for the first colon and for the first byte of the value.
`Line.readAt?` reads in this way.  Where a position is not one of the line, it gives nothing,
and `Line.readAt?_eq` says that this never happens, whatever the line is.
-/

namespace StreamingHttp

namespace Header

/-- Reads the text of a field line by the positions of its bytes. -/
def Line.fieldAt? (offset : Nat) (text : Bytes) : Option Line :=
  match text.findIdx? (· == Byte.colon) with
  | none => some (.malformed .missingColon)
  | some 0 => some (.malformed .emptyName)
  | some (before + 1) => do
      let last ← text[before]?
      if Byte.isBlank last then
        return .malformed .whitespaceBeforeColon
      let value ← Bytes.slice? (before + 2) text.length text
      let indent := (value.findIdx? fun b => !Byte.isBlank b).getD value.length
      return .field ⟨offset, offset + (before + 1)⟩
        ⟨offset + (before + 2 + indent), offset + text.length⟩

/-- Reads a line, its line end included, by the positions of its bytes. -/
def Line.readAt? (expectStart : Bool) (offset : Nat) (line : Bytes) : Option Line := do
  let contentStop ← Bytes.trimStop? Byte.isLineEnd line line.length
  if contentStop = 0 then
    return .blank
  let stop ← Bytes.trimStop? Byte.isBlank line contentStop
  if expectStart then
    return .start ⟨offset, offset + stop⟩
  let text ← Bytes.slice? 0 stop line
  let first ← line.head?
  if Byte.isBlank first then
    let start := (text.findIdx? fun b => !Byte.isBlank b).getD text.length
    return .continuation ⟨offset + start, offset + stop⟩
  Line.fieldAt? offset text

theorem Line.fieldAt?_eq (offset : Nat) (text : Bytes) :
    Line.fieldAt? offset text = some (Line.ofFieldText offset text) := by
  obtain ⟨name, value, rfl, hcolon⟩ := Delimited.exists_cut Byte.colon text
  rw [Line.ofFieldText, Delimited.cut_append_suffix hcolon, Line.fieldAt?]
  cases value with
  | none =>
      rw [Delimited.suffix, List.append_nil, Bytes.findIdx?_of_notMem hcolon]
  | some value =>
      rw [Delimited.suffix, Bytes.findIdx?_append_cons hcolon]
      rcases List.eq_nil_or_concat' name with rfl | ⟨front, last, rfl⟩
      · rfl
      have hlast : (front ++ [last] ++ Byte.colon :: value)[front.length]? = some last := by
        simp
      have hvalue : Bytes.slice? (front.length + 2)
          (front ++ [last] ++ Byte.colon :: value).length
          (front ++ [last] ++ Byte.colon :: value) = some value := by
        rw [Bytes.slice?_length (by simp)]
        simp
      have hlength : (front ++ [last]).length = front.length + 1 := by simp
      simp only [hlength, List.getLast?_concat, hlast, Option.bind_eq_bind, Option.bind_some,
        hvalue, Bytes.getD_findIdx?_not]
      split
      · rfl
      · simp only [Line.indent, Option.pure_def, Option.some.injEq, Line.field.injEq, Span.mk.injEq,
          true_and, and_true]
        omega

theorem Line.readAt?_eq (expectStart : Bool) (offset : Nat) (line : Bytes) :
    Line.readAt? expectStart offset line = some (Line.read expectStart offset line) := by
  obtain ⟨ends, hends, -⟩ := Bytes.exists_trimEnd_append Byte.isLineEnd line
  rw [Line.readAt?, Line.read, Bytes.trimStop?_eq (Nat.le_refl _), List.take_length]
  generalize hcontent : Bytes.trimEnd Byte.isLineEnd line = content at hends
  cases content with
  | nil => rfl
  | cons first rest =>
      obtain ⟨blanks, hblanks, -⟩ := Bytes.exists_trimEnd_append Byte.isBlank (first :: rest)
      have hprefix : line.take (first :: rest).length = first :: rest := by
        rw [hends, List.take_left]
      have hstop : Bytes.trimStop? Byte.isBlank line (first :: rest).length =
          some (Bytes.trimEnd Byte.isBlank (first :: rest)).length := by
        rw [Bytes.trimStop?_eq (by rw [hends]; simp), hprefix]
      have hfirst : line.head? = some first := by
        rw [hends]
        rfl
      dsimp only
      generalize Bytes.trimEnd Byte.isBlank (first :: rest) = text at hblanks hstop ⊢
      have htext : Bytes.slice? 0 text.length line = some text := by
        have hline : line = text ++ (blanks ++ ends) := by
          rw [hends, hblanks, List.append_assoc]
        rw [Bytes.slice?_zero (by rw [hline]; simp), hline, List.take_left]
      have hne : ¬ (first :: rest).length = 0 := by simp
      simp only [Option.bind_eq_bind, Option.bind_some, if_neg hne, hstop, htext, hfirst,
        Bytes.getD_findIdx?_not, Line.fieldAt?_eq]
      split
      · rfl
      · split
        · rfl
        · rfl

end Header

end StreamingHttp
