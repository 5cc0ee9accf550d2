import StreamingHttp.Proofs.Boundary.SavedBytes

/-!
# The state of the scanner between feeds

A scanner may be reset at any time, to another boundary, and told to keep its bytes or not.
As long as the boundary line has not ended, it has taken in all that it was fed since the
last reset, and `Scanner.Open` says what this leaves in it:

* the phase describes the text which it was fed, although most of this text may be dropped;
* its buffer holds the last bytes of the text, and all of them are scanned;
* a buffer which nobody asks for is short.

A feed takes in bytes one by one and then drops what is too much, so it is enough to say what
the bytes do to a scanner (`scan_eq_advance`) and what dropping them does.
-/

namespace StreamingHttp

namespace Boundary

namespace Scanner

variable {scanner : Scanner} {text : Bytes}

/-! ### What was fed -/

/-- What a text becomes with a call. -/
def Call.fed (text : Bytes) : Call → Bytes
  | .feed data => text ++ data
  | .reset _ _ => []

/-- The bytes which a scanner was fed since it was reset. -/
def fedSinceReset (history : List Call) : Bytes :=
  history.foldl Call.fed []

/-- Which boundary is looked for after a call, and whether the bytes are asked for. -/
def Call.settings (before : Bytes × Bool) : Call → Bytes × Bool
  | .feed _ => before
  | .reset boundary save => (boundary, save)

/-- What the last reset asked for, or `first` if there was none. -/
def lastSettings (first : Bytes × Bool) (history : List Call) : Bytes × Bool :=
  history.foldl Call.settings first

theorem run_concat (scanner : Scanner) (history : List Call) (last : Call) :
    scanner.run (history ++ [last]) = (scanner.run history).call last :=
  List.foldl_concat _ _ _ _

theorem fedSinceReset_concat (history : List Call) (last : Call) :
    fedSinceReset (history ++ [last]) = last.fed (fedSinceReset history) :=
  List.foldl_concat _ _ _ _

theorem lastSettings_concat (first : Bytes × Bool) (history : List Call) (last : Call) :
    lastSettings first (history ++ [last]) = last.settings (lastSettings first history) :=
  List.foldl_concat _ _ _ _

/-! ### What is taken in -/

/-- The scanner behind bytes which take it to a phase. -/
def advance (scanner : Scanner) (phase : Phase) (taken : Bytes) : Scanner :=
  { scanner with
    phase
    buffer := taken.reverse ++ scanner.buffer
    scanned := scanner.scanned + taken.length }

theorem advance_advance (scanner : Scanner) (phase next : Phase) (first second : Bytes) :
    (scanner.advance phase first).advance next second =
      scanner.advance next (first ++ second) := by
  simp [advance, Nat.add_assoc]

theorem push_eq_advance (scanner : Scanner) (b : UInt8) :
    scanner.push b = scanner.advance (scanner.phase.next (pattern scanner.boundary) b) [b] :=
  rfl

/-- A scan does nothing to a scanner but to take bytes in. -/
theorem scan_eq_advance (scanner : Scanner) (data : Bytes) :
    ∃ phase taken, data = taken ++ (scanner.scan data).1 ∧
      (scanner.scan data).2 = scanner.advance phase taken := by
  induction data generalizing scanner with
  | nil => exact ⟨scanner.phase, [], rfl, rfl⟩
  | cons b data ih =>
      unfold scan
      split
      · exact ⟨scanner.phase, [], rfl, rfl⟩
      · obtain ⟨phase, taken, hdata, hscan⟩ := ih (scanner.push b)
        refine ⟨phase, b :: taken, ?_, ?_⟩
        · rw [List.cons_append, ← hdata]
        · rw [hscan, push_eq_advance, advance_advance]
          rfl

theorem settings_feed (scanner : Scanner) (data : Bytes) :
    (scanner.feed data).2.boundary = scanner.boundary ∧
      (scanner.feed data).2.save = scanner.save := by
  obtain ⟨phase, taken, -, hscan⟩ := scanner.scan_eq_advance data
  rw [feed, hscan, compact]
  split
  · exact ⟨rfl, rfl⟩
  · exact ⟨rfl, rfl⟩

theorem settings_run (boundary : Bytes) (save : Bool) (history : List Call) :
    (((new boundary save).run history).boundary, ((new boundary save).run history).save) =
      lastSettings (boundary, save) history := by
  induction history using List.reverseRecOn with
  | nil => rfl
  | append_singleton history last ih =>
      rw [run_concat, lastSettings_concat]
      cases last with
      | reset boundary save => rfl
      | feed data =>
          obtain ⟨hboundary, hsave⟩ :=
            settings_feed ((new boundary save).run history) data
          rw [call, hboundary, hsave]
          exact ih

/-- A scanner which is done is left as it is. -/
theorem feed_of_isDone (h : scanner.isDone = true) (data : Bytes) :
    scanner.feed data = (data, scanner) := by
  rw [feed, scan_of_isDone h, compact]
  simp [h]

/-! ### Before the boundary line ends -/

/-- A scanner which was fed a text in which its boundary line has not ended. -/
structure Open (text : Bytes) (scanner : Scanner) : Prop where
  hasRead : scanner.HasRead scanner.boundary scanner.save text
  scanned : scanner.scanned = scanner.buffer.length
  kept : scanner.buffer.reverse <:+ text
  length_le : scanner.save = false → scanner.buffer.length ≤ maxUnsaved

theorem open_new (boundary : Bytes) (save : Bool) : (new boundary save).Open [] where
  hasRead := hasRead_new boundary save
  scanned := rfl
  kept := List.suffix_rfl
  length_le _ := Nat.zero_le _

/-- All scanned bytes are dropped, or they are few, or they are asked for. -/
theorem compact_eq_of_scanned (hopen : scanner.isDone = false)
    (hscanned : scanner.scanned = scanner.buffer.length) :
    scanner.compact = { scanner with buffer := [], scanned := 0 } ∨
      (scanner.compact = scanner ∧
        (scanner.save = false → scanner.buffer.length ≤ maxUnsaved)) := by
  unfold compact
  split
  · left
    rw [hscanned, Nat.sub_self, List.take_zero]
  · next hkeep =>
      refine .inr ⟨rfl, fun hsave => ?_⟩
      simp only [hopen, hsave, hscanned, Bool.not_false, Bool.true_and, decide_eq_true_eq]
        at hkeep
      omega

/-- The settings which a scanner has are its own. -/
theorem HasRead.own {boundary : Bytes} {save : Bool} (h : scanner.HasRead boundary save text) :
    scanner.HasRead scanner.boundary scanner.save text := by
  rw [h.boundary_eq, h.save_eq]
  exact h

theorem scanned_advance (h : scanner.scanned = scanner.buffer.length) (phase : Phase)
    (taken : Bytes) :
    (scanner.advance phase taken).scanned = (scanner.advance phase taken).buffer.length := by
  show scanner.scanned + taken.length = (taken.reverse ++ scanner.buffer).length
  rw [h, List.length_append, List.length_reverse, Nat.add_comm]

theorem kept_advance (h : scanner.buffer.reverse <:+ text) (phase : Phase) (taken : Bytes) :
    (scanner.advance phase taken).buffer.reverse <:+ text ++ taken := by
  obtain ⟨dropped, hdropped⟩ := h
  refine ⟨dropped, ?_⟩
  show dropped ++ (taken.reverse ++ scanner.buffer).reverse = _
  rw [List.reverse_append, List.reverse_reverse, ← List.append_assoc, hdropped]

/-- A feed takes in all of its bytes unless the boundary line ends in them. -/
theorem Open.feed (h : scanner.Open text) {data : Bytes}
    (hopen : (scanner.feed data).2.isDone = false) :
    (scanner.feed data).2.Open (text ++ data) := by
  -- Nothing is handed back, so all of the data is taken in.
  have hnothing := feed_fst_of_not_done hopen
  obtain ⟨taken, htaken, hread, -⟩ := h.hasRead.feed data
  rw [hnothing, List.append_nil] at htaken
  obtain ⟨phase, scannedBytes, hdata, hscan⟩ := scanner.scan_eq_advance data
  rw [show (scanner.scan data).1 = [] from hnothing, List.append_nil] at hdata
  subst hdata htaken
  have hown := hread.own
  have hfed : (scanner.feed data).2 = (scanner.advance phase data).compact := by
    rw [Scanner.feed, hscan]
  rw [hfed] at hopen hown ⊢
  rw [isDone_compact] at hopen
  have hscanned := scanned_advance h.scanned phase data
  rcases compact_eq_of_scanned hopen hscanned with hcompact | ⟨hcompact, hshort⟩
  · rw [hcompact] at hown ⊢
    exact ⟨hown, rfl, List.nil_suffix, fun _ => Nat.zero_le _⟩
  · rw [hcompact] at hown ⊢
    exact ⟨hown, hscanned, kept_advance h.kept phase data, hshort⟩

/-- After every history of feeds and resets. -/
theorem open_run (boundary : Bytes) (save : Bool) (history : List Call)
    (hopen : ((new boundary save).run history).isDone = false) :
    ((new boundary save).run history).Open (fedSinceReset history) := by
  induction history using List.reverseRecOn with
  | nil => exact open_new boundary save
  | append_singleton history last ih =>
      rw [run_concat] at hopen ⊢
      rw [fedSinceReset_concat]
      cases last with
      | reset boundary save => exact open_new boundary save
      | feed data =>
          cases hbefore : ((new boundary save).run history).isDone with
          | true =>
              rw [call, feed_of_isDone hbefore, hbefore] at hopen
              cases hopen
          | false => exact (ih hbefore).feed hopen

end Scanner

end Boundary

end StreamingHttp
