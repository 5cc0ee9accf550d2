import StreamingHttp.Proofs.Boundary.ScannerPosition

/-!
# The scanner does not see how its input is cut

Only the bytes which a scanner keeps depend on the cuts, because it drops them after every
feed which leaves many.  They decide nothing, so a scanner is compared by its *control*,
which is everything else: scanners of the same control take in the same bytes, and all
chunks may be fed at once.
-/

namespace StreamingHttp

namespace Boundary

namespace Scanner

/-- What decides how a scanner goes on. -/
structure Control where
  boundary : Bytes
  save : Bool
  phase : Phase
  deriving DecidableEq, Repr

/-- A scanner without the bytes which it keeps. -/
def control (scanner : Scanner) : Control where
  boundary := scanner.boundary
  save := scanner.save
  phase := scanner.phase

variable {scanner other : Scanner}

theorem isDone_eq_of_control_eq (h : scanner.control = other.control) :
    scanner.isDone = other.isDone :=
  congrArg (fun control : Control => control.phase == .done) h

theorem control_push_eq (h : scanner.control = other.control) (b : UInt8) :
    (scanner.push b).control = (other.push b).control :=
  congrArg (fun control : Control =>
    { control with phase := control.phase.next (pattern control.boundary) b }) h

/-- The same bytes are taken in. -/
theorem scan_eq_of_control_eq (h : scanner.control = other.control) (data : Bytes) :
    (scanner.scan data).1 = (other.scan data).1 ∧
      (scanner.scan data).2.control = (other.scan data).2.control := by
  induction data generalizing scanner other with
  | nil => exact ⟨rfl, h⟩
  | cons b data ih =>
      rw [scan, scan, isDone_eq_of_control_eq h]
      split
      · exact ⟨rfl, h⟩
      · exact ih (control_push_eq h b)

theorem control_compact (scanner : Scanner) :
    scanner.compact.control = scanner.control := by
  unfold compact
  split
  · rfl
  · rfl

theorem feed_eq_of_control_eq (h : scanner.control = other.control) (data : Bytes) :
    (scanner.feed data).1 = (other.feed data).1 ∧
      (scanner.feed data).2.control = (other.feed data).2.control := by
  have hscan := scan_eq_of_control_eq h data
  refine ⟨hscan.1, ?_⟩
  rw [feed, feed, control_compact, control_compact, hscan.2]

theorem isDone_feed (scanner : Scanner) (data : Bytes) :
    (scanner.feed data).2.isDone = (scanner.scan data).2.isDone :=
  isDone_compact _

/-- As long as the boundary line has not ended, nothing is handed back. -/
theorem feed_fst_of_not_done {data : Bytes}
    (h : (scanner.feed data).2.isDone = false) : (scanner.feed data).1 = [] := by
  rw [isDone_feed] at h
  rw [feed]
  induction data generalizing scanner with
  | nil => rfl
  | cons b data ih =>
      unfold scan at h ⊢
      split at h
      · next hdone =>
          rw [hdone] at h
          cases h
      · next hopen =>
          rw [if_neg hopen]
          exact ih h

/-- A scanner which ends in the first of two chunks hands the second one back. -/
theorem feed_append_of_done {first : Bytes} (h : (scanner.feed first).2.isDone = true)
    (second : Bytes) :
    scanner.feed (first ++ second) =
      ((scanner.feed first).1 ++ second, (scanner.feed first).2) := by
  rw [isDone_feed] at h
  rw [feed, scan_append, if_pos h]
  rfl

/-- Any other one takes it in. -/
theorem feed_append_of_not_done {first : Bytes}
    (h : (scanner.feed first).2.isDone = false) (second : Bytes) :
    (scanner.feed (first ++ second)).1 = ((scanner.feed first).2.feed second).1 ∧
      (scanner.feed (first ++ second)).2.control =
        ((scanner.feed first).2.feed second).2.control := by
  rw [isDone_feed] at h
  have hsame : (scanner.scan first).2.control = (scanner.feed first).2.control :=
    (control_compact _).symm
  rw [feed, scan_append, if_neg (by simp [h])]
  exact feed_eq_of_control_eq hsame second

/-- However the bytes are cut into chunks, the scanner hands back what it hands back of all
of them at once, and goes on in the same way. -/
theorem feedAll_eq_feed_flatten (scanner : Scanner) (chunks : List Bytes) :
    (feedAll feed scanner chunks).1.flatten = (scanner.feed chunks.flatten).1 ∧
      (feedAll feed scanner chunks).2.control = (scanner.feed chunks.flatten).2.control := by
  induction chunks generalizing scanner with
  | nil => exact ⟨rfl, (control_compact scanner).symm⟩
  | cons chunk later ih =>
      rw [feedAll, List.flatten_cons, List.flatten_cons]
      cases hfirst : (scanner.feed chunk).2.isDone with
      | true =>
          rw [feedAll_of_isDone hfirst, feed_append_of_done hfirst]
          exact ⟨rfl, rfl⟩
      | false =>
          obtain ⟨hreturned, hcontrol⟩ := feed_append_of_not_done hfirst later.flatten
          obtain ⟨hlater, hend⟩ := ih (scanner.feed chunk).2
          rw [hreturned, hcontrol, feed_fst_of_not_done hfirst]
          exact ⟨hlater, hend⟩

end Scanner

end Boundary

end StreamingHttp
