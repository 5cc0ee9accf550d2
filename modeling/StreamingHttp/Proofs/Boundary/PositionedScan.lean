import StreamingHttp.Proofs.Boundary.ScannerState
import StreamingHttp.Proofs.Delimited
import StreamingHttp.Proofs.Positions

/-!
# Scanning at positions

All bytes which are fed may be put into the buffer at once and scanned there: those behind
the scanned ones are compared with the pattern, each with the byte at the position which is
matched so far, and behind the pattern a line feed is looked for.  What follows it in the
bytes fed last is handed back, and what was scanned is cut off when it is too much.
`Scanner.feedAt?` takes bytes in in this way.  It gives nothing if a position is not one of
the bytes which it is used on.

While bytes are matched, the position in the pattern stays within it: it moves on by one
byte, and at the last one matching ends.  So what is matched before the boundary line ends
(`matchAt?_eq`) and what is scanned behind it (`scanAt?_padding`) is what one byte after
the other leads to.
-/

namespace StreamingHttp

namespace Boundary

/-- Compares bytes with those of a pattern of which some are matched.  Ends behind the
pattern or behind the bytes, and counts on how many bytes are scanned. -/
def matchAt? (pattern : Bytes) (matched scanned : Nat) : Bytes → Option (Phase × Nat)
  | [] => some (.boundary matched, scanned)
  | b :: ahead => do
      let expected ← pattern[matched]?
      if b = expected then
        if matched + 1 = pattern.length then return (.padding, scanned + 1)
        else matchAt? pattern (matched + 1) (scanned + 1) ahead
      else if b = Byte.lf then matchAt? pattern 1 (scanned + 1) ahead
      else matchAt? pattern 0 (scanned + 1) ahead

namespace Scanner

variable {scanner : Scanner}

/-- Scans a buffer behind the bytes which are scanned.  Gives the phase and how many bytes
are scanned then. -/
def scanAt? (scanner : Scanner) (buffer : Bytes) : Option (Phase × Nat) := do
  let ahead ← Bytes.slice? scanner.scanned buffer.length buffer
  let (phase, scanned) ← match scanner.phase with
    | .boundary matched => matchAt? (pattern scanner.boundary) matched scanner.scanned ahead
    | phase => some (phase, scanner.scanned)
  if phase = .padding then
    let behind ← Bytes.slice? scanned buffer.length buffer
    match behind.findIdx? (· == Byte.lf) with
    | some offset => return (.done, scanned + offset + 1)
    | none => return (.padding, buffer.length)
  else return (phase, scanned)

/-- What is handed back of the bytes fed last, and what is kept of the buffer, when so many
bytes of it are scanned. -/
def keepAt? (scanner : Scanner) (data : Bytes) (phase : Phase) (scanned : Nat) :
    Option (Bytes × Scanner) := do
  let buffer := scanner.buffer.reverse ++ data
  if phase = .done then
    let kept ← Bytes.slice? 0 scanned buffer
    let start ← Bytes.distance? scanner.buffer.length scanned
    let rest ← Bytes.slice? start data.length data
    return (rest, { scanner with phase, buffer := kept.reverse, scanned })
  else if !scanner.save && maxUnsaved < scanned then
    let left ← Bytes.slice? scanned buffer.length buffer
    return ([], { scanner with phase, buffer := left.reverse, scanned := 0 })
  else
    return ([], { scanner with phase, buffer := buffer.reverse, scanned })

/-- Takes in the next bytes by positions in the buffer. -/
def feedAt? (scanner : Scanner) (data : Bytes) : Option (Bytes × Scanner) :=
  if scanner.isDone then some (data, scanner)
  else do
    let (phase, scanned) ← scanner.scanAt? (scanner.buffer.reverse ++ data)
    scanner.keepAt? data phase scanned

/-! ### One phase after the other -/

theorem advance_nil (scanner : Scanner) : scanner.advance scanner.phase [] = scanner :=
  rfl

theorem scan_cons (hopen : scanner.isDone = false) (b : UInt8) (data : Bytes) :
    scanner.scan (b :: data) =
      (scanner.advance (scanner.phase.next (pattern scanner.boundary) b) [b]).scan data := by
  rw [scan, if_neg (by simp [hopen]), push_eq_advance]

/-- Bytes are matched until the pattern is complete or they end. -/
theorem matchAt?_eq {matched : Nat} (hphase : scanner.phase = .boundary matched)
    (hmatched : matched < (pattern scanner.boundary).length) (data : Bytes) :
    ∃ phase front behind, data = front ++ behind ∧
      matchAt? (pattern scanner.boundary) matched scanner.scanned data =
        some (phase, scanner.scanned + front.length) ∧
      scanner.scan data = (scanner.advance phase front).scan behind ∧
      (phase = .padding ∨ behind = [] ∧ ∃ last, phase = .boundary last) := by
  induction data generalizing scanner matched with
  | nil =>
      refine ⟨.boundary matched, [], [], rfl, rfl, ?_, .inr ⟨rfl, matched, rfl⟩⟩
      rw [← hphase, advance_nil]
  | cons b data ih =>
      have hopen : scanner.isDone = false := by
        rw [isDone, hphase]
        rfl
      have hexpected := List.getElem?_eq_getElem hmatched
      rw [scan_cons hopen, hphase, matchAt?, hexpected]
      generalize (pattern scanner.boundary)[matched] = expected at hexpected
      -- A byte which leaves the pattern incomplete is followed by the other ones.
      have hstep {next : Nat} (hnext : next < (pattern scanner.boundary).length) :
          ∃ phase front behind, b :: data = front ++ behind ∧
            matchAt? (pattern scanner.boundary) next (scanner.scanned + 1) data =
              some (phase, scanner.scanned + front.length) ∧
            (scanner.advance (.boundary next) [b]).scan data =
              (scanner.advance phase front).scan behind ∧
            (phase = .padding ∨ behind = [] ∧ ∃ last, phase = .boundary last) := by
        obtain ⟨phase, front, behind, rfl, hmatch, hscan, hend⟩ :=
          @ih (scanner.advance (.boundary next) [b]) next rfl hnext
        refine ⟨phase, b :: front, behind, rfl, ?_, ?_, hend⟩
        · rw [List.length_cons, Nat.add_comm front.length, ← Nat.add_assoc]
          exact hmatch
        · rw [hscan, advance_advance]
          rfl
      have hlong := @length_pattern scanner.boundary
      simp only [Option.bind_eq_bind, Option.bind_some, Phase.next, hexpected,
        Option.some.injEq, eq_comm (a := expected)]
      split
      · split
        · exact ⟨.padding, [b], data, rfl, rfl, rfl, .inl rfl⟩
        · next hshort => exact hstep (by omega)
      · split
        · exact hstep (by omega)
        · exact hstep (by omega)

/-- Padding is skipped. -/
theorem scan_padding (hphase : scanner.phase = .padding) {padding : Bytes}
    (hpadding : Byte.lf ∉ padding) :
    scanner.scan padding = ([], scanner.advance .padding padding) := by
  induction padding generalizing scanner with
  | nil => rw [← hphase, advance_nil, scan]
  | cons b padding ih =>
      rw [List.mem_cons, not_or] at hpadding
      have hopen : scanner.isDone = false := by
        rw [isDone, hphase]
        rfl
      have hnext : scanner.phase.next (pattern scanner.boundary) b = .padding := by
        rw [hphase, Phase.next, if_neg (Ne.symm hpadding.1)]
      rw [scan_cons hopen, hnext, ih rfl hpadding.2, advance_advance]
      rfl

/-- The line feed behind the padding ends the scan. -/
theorem scan_padding_lf (hphase : scanner.phase = .padding) {padding : Bytes}
    (hpadding : Byte.lf ∉ padding) (rest : Bytes) :
    scanner.scan (padding ++ Byte.lf :: rest) =
      (rest, scanner.advance .done (padding ++ [Byte.lf])) := by
  have hopen : (scanner.advance .padding padding).isDone = false := rfl
  have hnext : (scanner.advance .padding padding).phase.next
      (pattern (scanner.advance .padding padding).boundary) Byte.lf = .done := by
    show Phase.next _ Byte.lf .padding = .done
    rw [Phase.next, if_pos rfl]
  rw [scan_append, scan_padding hphase hpadding, if_neg (by simp [hopen]), scan_cons hopen,
    hnext, advance_advance, scan_of_isDone rfl]

/-! ### All phases -/

/-- What is scanned behind the pattern. -/
theorem scanAt?_padding {front behind buffer : Bytes} (hbuffer : buffer = front ++ behind)
    (hlength : front.length = scanner.scanned) (hphase : scanner.phase = .padding) :
    (match behind.findIdx? (· == Byte.lf) with
      | some offset => some (Phase.done, scanner.scanned + offset + 1)
      | none => some (Phase.padding, buffer.length)) =
        some ((scanner.scan behind).2.phase, (scanner.scan behind).2.scanned) := by
  obtain ⟨padding, rest, rfl, hpadding⟩ := Delimited.exists_cut Byte.lf behind
  cases rest with
  | none =>
      rw [Delimited.suffix, List.append_nil] at hbuffer ⊢
      rw [Bytes.findIdx?_of_notMem hpadding, scan_padding hphase hpadding, hbuffer,
        List.length_append, hlength]
      rfl
  | some rest =>
      rw [Delimited.suffix, Bytes.findIdx?_append_cons hpadding,
        scan_padding_lf hphase hpadding]
      show some (Phase.done, scanner.scanned + padding.length + 1) =
        some (Phase.done, scanner.scanned + (padding ++ [Byte.lf]).length)
      rw [List.length_append]
      rfl

/-- A scan at positions leads to the phase which one byte after the other leads to. -/
theorem scanAt?_eq (hopen : scanner.isDone = false)
    (hscanned : scanner.scanned = scanner.buffer.length)
    (hmatched : ∀ matched, scanner.phase = .boundary matched →
      matched < (pattern scanner.boundary).length) (data : Bytes) :
    scanner.scanAt? (scanner.buffer.reverse ++ data) =
      some ((scanner.scan data).2.phase, (scanner.scan data).2.scanned) := by
  have hlength : scanner.buffer.reverse.length = scanner.scanned := by
    rw [hscanned, List.length_reverse]
  have hahead : Bytes.slice? scanner.scanned (scanner.buffer.reverse ++ data).length
      (scanner.buffer.reverse ++ data) = some data := by
    rw [Bytes.slice?_length (by rw [List.length_append]; omega), ← hlength, List.drop_left]
  rw [scanAt?, hahead]
  cases hphase : scanner.phase with
  | done =>
      rw [isDone, hphase] at hopen
      cases hopen
  | padding =>
      simp only [Option.bind_eq_bind, Option.bind_some, if_true, hahead]
      exact scanAt?_padding rfl hlength hphase
  | boundary matched =>
      obtain ⟨phase, front, behind, rfl, hmatch, hscan, hend⟩ :=
        matchAt?_eq hphase (hmatched matched hphase) data
      simp only [Option.bind_eq_bind, Option.bind_some, hmatch, hscan]
      rcases hend with rfl | ⟨rfl, last, rfl⟩
      · have hfront : (scanner.buffer.reverse ++ front).length =
            scanner.scanned + front.length := by
          rw [List.length_append, hlength]
        have hbehind : Bytes.slice? (scanner.scanned + front.length)
            (scanner.buffer.reverse ++ (front ++ behind)).length
            (scanner.buffer.reverse ++ (front ++ behind)) = some behind := by
          rw [← List.append_assoc, Bytes.slice?_length (by rw [List.length_append]; omega),
            ← hfront, List.drop_left]
        simp only [if_true, hbehind, Option.bind_some]
        exact @scanAt?_padding (scanner.advance .padding front) _ behind _
          (List.append_assoc _ _ _).symm hfront rfl
      · simp only [reduceCtorEq, if_false]
        rfl

/-- What is cut off behind and before the scanned bytes is what was not taken in and what is
dropped. -/
theorem keepAt?_eq (hscanned : scanner.scanned = scanner.buffer.length) {phase : Phase}
    {taken rest : Bytes} (hrest : phase ≠ .done → rest = []) :
    scanner.keepAt? (taken ++ rest) phase (scanner.scanned + taken.length) =
      some (rest, (scanner.advance phase taken).compact) := by
  have hlength : scanner.scanned + taken.length =
      (scanner.buffer.reverse ++ taken).length := by
    rw [hscanned, List.length_append, List.length_reverse]
  rw [keepAt?]
  by_cases hphase : phase = .done
  · have hkept : Bytes.slice? 0 (scanner.scanned + taken.length)
        (scanner.buffer.reverse ++ (taken ++ rest)) =
          some (scanner.buffer.reverse ++ taken) := by
      rw [← List.append_assoc, hlength, Bytes.slice?_zero (by simp), List.take_left]
    have hbehind : Bytes.slice? taken.length (taken ++ rest).length (taken ++ rest) =
        some rest := by
      rw [Bytes.slice?_length (by simp), List.drop_left]
    have hstart : Bytes.distance? scanner.buffer.length (scanner.scanned + taken.length) =
        some taken.length := by
      rw [Bytes.distance?_of_le (by omega), hscanned, Nat.add_sub_cancel_left]
    simp only [if_pos hphase, hkept, hstart, hbehind, Option.bind_eq_bind, Option.bind_some]
    rw [hphase, compact]
    simp [isDone, advance]
  · obtain rfl := hrest hphase
    have hopen : (scanner.advance phase taken).isDone = false := by
      simpa [isDone, advance] using hphase
    simp only [if_neg hphase, List.append_nil]
    rw [compact, hopen]
    show (if (!scanner.save && decide (maxUnsaved < scanner.scanned + taken.length)) = true
      then _ else _) = some ([], if (!false && !scanner.save &&
        decide (maxUnsaved < scanner.scanned + taken.length)) = true then _ else _)
    rw [Bool.not_false, Bool.true_and]
    split
    · rw [hlength, Bytes.slice?_length (Nat.le_refl _), List.drop_length]
      show some ([], _) = some ([], _)
      simp [advance, hscanned, Nat.add_comm]
    · simp [advance]

/-- While bytes are taken in, no position is out of range. -/
theorem feedAt?_eq (hscanned : scanner.isDone = false → scanner.scanned = scanner.buffer.length)
    (hmatched : ∀ matched, scanner.phase = .boundary matched →
      matched < (pattern scanner.boundary).length) (data : Bytes) :
    scanner.feedAt? data = some (scanner.feed data) := by
  cases hopen : scanner.isDone with
  | true => rw [feedAt?, if_pos hopen, feed_of_isDone hopen]
  | false =>
      have hscan := scanAt?_eq hopen (hscanned hopen) hmatched data
      obtain ⟨phase, taken, hdata, hend⟩ := scanner.scan_eq_advance data
      have hrest : phase ≠ .done → (scanner.scan data).1 = [] := by
        intro hphase
        apply feed_fst_of_not_done
        rw [isDone_feed, hend]
        simpa [isDone, advance] using hphase
      have hkeep := @keepAt?_eq scanner (hscanned hopen) phase taken _ hrest
      rw [feedAt?, if_neg (by simp [hopen]), hscan, hend]
      rw [← hdata] at hkeep
      rw [feed, hend]
      exact hkeep

/-- A position behind the pattern would be found out. -/
example : ({ new [0x61] false with phase := .boundary 4 } : Scanner).feedAt? [0x62] = none := by
  decide

/-- After every history of feeds and resets less than the pattern is matched, and what is
matched is what the bytes fed since the last reset end with.  All of the buffer is scanned
as long as the boundary line has not ended, and it is short if nobody asks for it.  So no
position is out of range in the next feed, and the next feed takes in one byte at least. -/
theorem state_in_range (boundary : Bytes) (save : Bool) (history : List Call) :
    let scanner := (new boundary save).run history
    (scanner.boundary, scanner.save) = lastSettings (boundary, save) history ∧
      (∀ matched, scanner.phase = .boundary matched →
        matched < (pattern scanner.boundary).length ∧
          (pattern scanner.boundary).take matched <:+ fedSinceReset history) ∧
      (scanner.isDone = false →
        scanner.scanned = scanner.buffer.length ∧
          scanner.buffer.reverse <:+ fedSinceReset history ∧
          (scanner.save = false → scanner.buffer.length ≤ 4096)) ∧
      ∀ data, scanner.feedAt? data = some (scanner.feed data) ∧
        (scanner.isDone = false → data ≠ [] →
          (scanner.feed data).1.length < data.length) := by
  intro scanner
  have hopen := open_run boundary save history
  have hmatched : ∀ matched, scanner.phase = .boundary matched →
      matched < (pattern scanner.boundary).length ∧
        (pattern scanner.boundary).take matched <:+ fedSinceReset history := by
    intro matched hphase
    have hdone : scanner.isDone = false := by
      rw [isDone, hphase]
      rfl
    have hdescribes := (hopen hdone).hasRead.phase
    rw [hphase] at hdescribes
    exact ⟨hdescribes.1, hdescribes.2.1⟩
  refine ⟨settings_run boundary save history, hmatched,
    fun h => ⟨(hopen h).scanned, (hopen h).kept, (hopen h).length_le⟩,
    fun data => ⟨?_, length_feed_lt⟩⟩
  exact feedAt?_eq (fun h => (hopen h).scanned) (fun matched h => (hmatched matched h).1) data

end Scanner

end Boundary

end StreamingHttp
