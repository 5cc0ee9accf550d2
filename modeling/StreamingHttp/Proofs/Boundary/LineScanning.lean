import StreamingHttp.Proofs.Boundary.ScannerPosition
import StreamingHttp.Proofs.Lines

/-!
# The scanner, line by line

A scanner which stands behind a line feed is done with the next line if it starts with
the delimiter, and stands behind a line feed again if not.  A scanner which has taken in
nothing does not stand there: it needs a line feed first, so whatever its first line
starts with, it is done with a later one.

`left?` is what a scanner leaves of a text, if it is done.  From behind a line feed this
is what follows the first delimiter line, and from the start of a scan it is what follows
the first delimiter line behind the first line.
-/

namespace StreamingHttp

namespace Boundary

/-- Whether a line starts with the delimiter. -/
def isDelimiterLine (boundary line : Bytes) : Bool :=
  (delimiter boundary).isPrefixOf line

variable {boundary bytes line : Bytes}

/-! ### Phases -/

namespace Phase

/-- The phase after some bytes. -/
def after (pattern bytes : Bytes) (phase : Phase) : Phase :=
  bytes.foldl (fun phase b => phase.next pattern b) phase

theorem after_nil (pattern : Bytes) (phase : Phase) : phase.after pattern [] = phase :=
  rfl

theorem after_cons (pattern : Bytes) (b : UInt8) (bytes : Bytes) (phase : Phase) :
    phase.after pattern (b :: bytes) = (phase.next pattern b).after pattern bytes :=
  rfl

variable {b : UInt8} {matched : Nat}

/-- Only a line feed starts the pattern. -/
theorem next_zero (hb : b ≠ Byte.lf) :
    (Phase.boundary 0).next (pattern boundary) b = .boundary 0 := by
  have hnot : (pattern boundary)[0]? ≠ some b := by
    rw [getElem?_pattern_zero]
    exact fun h => hb (Option.some.inj h).symm
  rw [next, if_neg hnot, if_neg hb]

/-- A line feed starts the pattern anew, whatever is matched before it. -/
theorem next_lf (hboundary : Byte.lf ∉ boundary) :
    (Phase.boundary matched).next (pattern boundary) Byte.lf = .boundary 1 := by
  rw [next]
  split
  · next hmatch =>
      obtain rfl := eq_zero_of_getElem?_pattern hboundary hmatch
      rw [if_neg]
      rw [length_pattern]
      omega
  · rw [if_pos rfl]

/-- One byte of the delimiter. -/
theorem next_succ (hb : b ≠ Byte.lf) :
    (Phase.boundary (matched + 1)).next (pattern boundary) b =
      if (delimiter boundary)[matched]? = some b then
        if matched + 1 = (delimiter boundary).length then .padding
        else .boundary (matched + 2)
      else .boundary 0 := by
  rw [next, if_neg hb]
  simp only [pattern, List.getElem?_cons_succ, List.length_cons, Nat.add_right_cancel_iff]

/-- Only a line feed behind the pattern ends a boundary line. -/
theorem next_ne_done {phase : Phase} (hb : b ≠ Byte.lf) (hphase : phase ≠ .done) :
    phase.next (pattern boundary) b ≠ .done := by
  cases phase with
  | boundary matched =>
      rw [next, if_neg hb]
      split
      · split
        · exact Phase.noConfusion
        · exact Phase.noConfusion
      · exact Phase.noConfusion
  | padding =>
      rw [next, if_neg hb]
      exact hphase
  | done => exact absurd rfl hphase

/-- A mismatch lasts up to the line feed. -/
theorem after_line_zero (hboundary : Byte.lf ∉ boundary) (hbytes : Byte.lf ∉ bytes) :
    (Phase.boundary 0).after (pattern boundary) (bytes ++ [Byte.lf]) = .boundary 1 := by
  induction bytes with
  | nil =>
      rw [List.nil_append, after_cons, after_nil]
      exact next_lf hboundary
  | cons b bytes ih =>
      rw [List.mem_cons, not_or] at hbytes
      rw [List.cons_append, after_cons, next_zero (Ne.symm hbytes.1)]
      exact ih hbytes.2

/-- Padding lasts up to the line feed. -/
theorem after_line_padding (hbytes : Byte.lf ∉ bytes) :
    Phase.padding.after (pattern boundary) (bytes ++ [Byte.lf]) = .done := by
  induction bytes with
  | nil => rfl
  | cons b bytes ih =>
      rw [List.mem_cons, not_or] at hbytes
      rw [List.cons_append, after_cons, next, if_neg (Ne.symm hbytes.1)]
      exact ih hbytes.2

/-- A line which goes on with the rest of the delimiter is a boundary line. -/
theorem after_line_succ (hboundary : Byte.lf ∉ boundary) (hbytes : Byte.lf ∉ bytes)
    (hmatched : matched < (delimiter boundary).length) :
    (Phase.boundary (matched + 1)).after (pattern boundary) (bytes ++ [Byte.lf]) =
      if (delimiter boundary).drop matched <+: bytes then .done else .boundary 1 := by
  induction bytes generalizing matched with
  | nil =>
      have hrest : ¬ (delimiter boundary).drop matched <+: [] := by
        rw [List.prefix_nil, List.drop_eq_nil_iff]
        omega
      rw [if_neg hrest, List.nil_append, after_cons, after_nil]
      exact next_lf hboundary
  | cons b bytes ih =>
      rw [List.mem_cons, not_or] at hbytes
      rw [List.cons_append, after_cons, next_succ (Ne.symm hbytes.1),
        List.drop_eq_getElem_cons hmatched]
      simp only [List.getElem?_eq_getElem hmatched, Option.some.injEq,
        List.cons_prefix_cons]
      by_cases hb : (delimiter boundary)[matched] = b
      · rw [if_pos hb]
        simp only [hb, true_and]
        by_cases hlast : matched + 1 = (delimiter boundary).length
        · rw [if_pos hlast, hlast, List.drop_length, if_pos List.nil_prefix]
          exact after_line_padding hbytes.2
        · rw [if_neg hlast]
          exact ih hbytes.2 (by omega)
      · rw [if_neg hb, if_neg fun hprefix => hb hprefix.1]
        exact after_line_zero hboundary hbytes.2

end Phase

/-! ### Scanners -/

namespace Scanner

variable {scanner : Scanner}

/-- The bytes which are left, if the boundary line has ended. -/
def left? (scanner : Scanner) (returned : Bytes) : Option Bytes :=
  if scanner.isDone then some returned else none

/-- The scanner which has taken in some bytes. -/
def pushAll (scanner : Scanner) (bytes : Bytes) : Scanner :=
  bytes.foldl push scanner

theorem boundary_pushAll (scanner : Scanner) (bytes : Bytes) :
    (scanner.pushAll bytes).boundary = scanner.boundary := by
  induction bytes generalizing scanner with
  | nil => rfl
  | cons b bytes ih => exact ih (scanner.push b)

theorem phase_pushAll (scanner : Scanner) (bytes : Bytes) :
    (scanner.pushAll bytes).phase =
      scanner.phase.after (pattern scanner.boundary) bytes := by
  induction bytes generalizing scanner with
  | nil => rfl
  | cons b bytes ih => exact ih (scanner.push b)

theorem isDone_eq_false_iff : scanner.isDone = false ↔ scanner.phase ≠ .done := by
  simp [isDone]

/-- A scanner which is done with some bytes leaves all bytes behind them. -/
theorem scan_append_of_done (h : (scanner.scan bytes).2.isDone = true) (rest : Bytes) :
    scanner.scan (bytes ++ rest) = ((scanner.scan bytes).1 ++ rest, (scanner.scan bytes).2) := by
  rw [scan_append, if_pos h]

/-- What is left follows what is taken in, and with none of it the scanner is done. -/
theorem exists_taken_of_left? {data left : Bytes} (hopen : scanner.isDone = false)
    (h : (scanner.scan data).2.left? (scanner.scan data).1 = some left) :
    ∃ taken, data = taken ++ left ∧ scanner.scan taken = ([], (scanner.scan data).2) ∧
      (scanner.scan data).2.isDone = true := by
  have hdone : (scanner.scan data).2.isDone = true := by
    by_contra hnot
    rw [left?, if_neg hnot] at h
    cases h
  rw [left?, if_pos hdone, Option.some.injEq] at h
  induction data generalizing scanner with
  | nil =>
      rw [scan, hopen] at hdone
      cases hdone
  | cons b data ih =>
      rw [scan, if_neg (by simp [hopen])] at h hdone ⊢
      cases hlast : (scanner.push b).isDone with
      | true =>
          rw [scan_of_isDone hlast] at h ⊢
          subst h
          refine ⟨[b], rfl, ?_, hlast⟩
          rw [scan, if_neg (by simp [hopen])]
          rfl
      | false =>
          obtain ⟨taken, rfl, htaken, -⟩ := ih hlast h hdone
          refine ⟨b :: taken, rfl, ?_, hdone⟩
          rw [scan, if_neg (by simp [hopen])]
          exact htaken

/-- A scanner which is not done takes in the next line. -/
theorem scan_line_append (hopen : scanner.isDone = false) (hline : Bytes.IsLine line)
    (rest : Bytes) : scanner.scan (line ++ rest) = (scanner.pushAll line).scan rest := by
  obtain ⟨body, hbody, rfl⟩ := hline
  induction body generalizing scanner with
  | nil =>
      rw [List.nil_append, List.singleton_append, scan, if_neg (by simp [hopen])]
      rfl
  | cons b body ih =>
      rw [List.mem_cons, not_or] at hbody
      rw [List.cons_append, List.cons_append, scan, if_neg (by simp [hopen])]
      refine ih ?_ hbody.2
      rw [isDone_eq_false_iff] at hopen ⊢
      exact Phase.next_ne_done (Ne.symm hbody.1) hopen

/-- Without a line feed it is not done. -/
theorem left?_scan_of_notMem (hopen : scanner.isDone = false) (hbytes : Byte.lf ∉ bytes) :
    (scanner.scan bytes).2.left? (scanner.scan bytes).1 = none := by
  induction bytes generalizing scanner with
  | nil =>
      show (if scanner.isDone = true then _ else _) = _
      rw [hopen]
      rfl
  | cons b bytes ih =>
      rw [List.mem_cons, not_or] at hbytes
      rw [scan, if_neg (by simp [hopen])]
      refine ih ?_ hbytes.2
      rw [isDone_eq_false_iff] at hopen ⊢
      exact Phase.next_ne_done (Ne.symm hbytes.1) hopen

variable {lines : List Bytes} {tail : Bytes}

/-- The delimiter holds no line feed, so the line feed of a line does not count. -/
theorem isDelimiterLine_iff (hboundary : Byte.lf ∉ boundary) :
    isDelimiterLine boundary (bytes ++ [Byte.lf]) = true ↔
      delimiter boundary <+: bytes := by
  rw [isDelimiterLine, List.isPrefixOf_iff_prefix, List.prefix_concat_iff]
  constructor
  · rintro (hwhole | hprefix)
    · have hmem : Byte.lf ∈ delimiter boundary := by simp [hwhole]
      simp [delimiter, hboundary, Byte.lf, Byte.dash] at hmem
    · exact hprefix
  · exact .inr

/-- From behind a line feed, a line leads to the end or behind its own line feed. -/
theorem phase_pushAll_line (hboundary : Byte.lf ∉ scanner.boundary)
    (hphase : scanner.phase = .boundary 1) (hline : Bytes.IsLine line) :
    (scanner.pushAll line).phase =
      if isDelimiterLine scanner.boundary line then .done else .boundary 1 := by
  obtain ⟨body, hbody, rfl⟩ := hline
  have hdelimiter : 0 < (delimiter scanner.boundary).length := by simp [delimiter]
  rw [phase_pushAll, hphase, Phase.after_line_succ hboundary hbody hdelimiter, List.drop_zero]
  simp only [isDelimiterLine_iff hboundary]

/-- Behind a line feed, a scanner is done with the first delimiter line. -/
theorem left?_scan_lines (hboundary : Byte.lf ∉ scanner.boundary)
    (hphase : scanner.phase = .boundary 1) (hlines : ∀ line ∈ lines, Bytes.IsLine line)
    (htail : Byte.lf ∉ tail) :
    (scanner.scan (lines.flatten ++ tail)).2.left?
        (scanner.scan (lines.flatten ++ tail)).1 =
      Bytes.behind? (isDelimiterLine scanner.boundary) lines tail := by
  have hopen : scanner.isDone = false := by
    rw [isDone, hphase]
    rfl
  induction lines generalizing scanner with
  | nil => exact left?_scan_of_notMem hopen htail
  | cons line later ih =>
      obtain ⟨hline, hlater⟩ := List.forall_mem_cons.mp hlines
      have hafter := phase_pushAll_line hboundary hphase hline
      have hsame := boundary_pushAll scanner line
      rw [List.flatten_cons, List.append_assoc, scan_line_append hopen hline]
      cases hkind : isDelimiterLine scanner.boundary line with
      | true =>
          rw [hkind, if_pos rfl] at hafter
          have hdone : (scanner.pushAll line).isDone = true := by
            rw [isDone, hafter]
            rfl
          rw [Bytes.behind?_cons_of_pos hkind, scan_of_isDone hdone, left?, if_pos hdone]
      | false =>
          rw [hkind, if_neg Bool.false_ne_true] at hafter
          rw [Bytes.behind?_cons_of_neg hkind, ← hsame]
          refine ih (hsame ▸ hboundary) hafter hlater ?_
          rw [isDone, hafter]
          rfl

/-- From the start of a scan the first line does not count. -/
theorem left?_scan_new (hboundary : Byte.lf ∉ boundary) (save : Bool)
    (hlines : ∀ line ∈ lines, Bytes.IsLine line) (htail : Byte.lf ∉ tail) :
    ((new boundary save).scan (lines.flatten ++ tail)).2.left?
        ((new boundary save).scan (lines.flatten ++ tail)).1 =
      Bytes.behind? (isDelimiterLine boundary) lines.tail tail := by
  cases lines with
  | nil => exact left?_scan_of_notMem rfl htail
  | cons line later =>
      obtain ⟨hline, hlater⟩ := List.forall_mem_cons.mp hlines
      have hafter := phase_pushAll (new boundary save) line
      have hsame := boundary_pushAll (new boundary save) line
      rw [List.flatten_cons, List.append_assoc, scan_line_append rfl hline]
      obtain ⟨body, hbody, rfl⟩ := hline
      have hfirst : ((new boundary save).pushAll (body ++ [Byte.lf])).phase = .boundary 1 :=
        hafter.trans (Phase.after_line_zero hboundary hbody)
      have hleft := left?_scan_lines (hsame ▸ hboundary) hfirst hlater htail
      rw [hsame] at hleft
      exact hleft

end Scanner

end Boundary

end StreamingHttp
