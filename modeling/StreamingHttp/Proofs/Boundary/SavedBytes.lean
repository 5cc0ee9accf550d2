import StreamingHttp.Proofs.Boundary.ChunkIndependence

/-!
# Keeping the bytes or dropping them

A scanner which is asked for the bytes it takes in keeps all of them.  Any other one drops
its buffer again and again, in the middle of a pattern or of the padding.  The two have
different buffers throughout, but neither looks into its buffer: a byte takes both to the
same phase, so they take in the same bytes, however these are cut for each of them.

What the first one has kept at any time is what it has taken in.  With what it has handed
back this is the text.  Once it is done, it is the text through the line feed of the
boundary line, and with no shorter part of the text the scanner is done.

A scanner at the start of a scan is a new one, or one which has been reset, whatever it was
fed before.
-/

namespace StreamingHttp

namespace Boundary

variable {boundary : Bytes}

namespace Scanner

/-! ### The start of a scan -/

/-- What a caller does to a scanner. -/
inductive Call where
  | feed (data : Bytes)
  | reset (boundary : Bytes) (save : Bool)
  deriving DecidableEq, Repr

/-- The scanner after a call. -/
def call (scanner : Scanner) : Call → Scanner
  | .feed data => (scanner.feed data).2
  | .reset boundary save => scanner.reset boundary save

/-- The scanner after a history of calls. -/
def run (scanner : Scanner) (history : List Call) : Scanner :=
  history.foldl call scanner

/-- A scanner which is new, or which has been reset after any history. -/
def AtStart (boundary : Bytes) (save : Bool) (scanner : Scanner) : Prop :=
  scanner = new boundary save ∨
    ∃ first asked history, scanner = ((new first asked).run history).reset boundary save

/-- A reset leaves no trace of the history before it. -/
theorem AtStart.eq_new {save : Bool} {scanner : Scanner}
    (h : scanner.AtStart boundary save) : scanner = new boundary save := by
  rcases h with rfl | ⟨first, asked, history, rfl⟩
  · rfl
  · rfl

/-! ### Scanners which differ in what they keep -/

/-- The same scanner, asked for the bytes or not. -/
def withSave (scanner : Scanner) (save : Bool) : Scanner :=
  { scanner with save }

variable {scanner : Scanner}

/-- Whether the bytes are asked for does not decide which of them are taken in. -/
theorem scan_withSave (scanner : Scanner) (save : Bool) (data : Bytes) :
    (scanner.withSave save).scan data =
      ((scanner.scan data).1, (scanner.scan data).2.withSave save) := by
  induction data generalizing scanner with
  | nil => rfl
  | cons b data ih =>
      have hdone : (scanner.withSave save).isDone = scanner.isDone := rfl
      have hpush : (scanner.withSave save).push b = (scanner.push b).withSave save := rfl
      rw [scan, scan, hdone]
      split
      · rfl
      · rw [hpush]
        exact ih (scanner.push b)

/-- So it decides neither what is handed back nor when the scanner is done. -/
theorem feed_withSave (scanner : Scanner) (save : Bool) (data : Bytes) :
    ((scanner.withSave save).feed data).1 = (scanner.feed data).1 ∧
      ((scanner.withSave save).feed data).2.isDone = (scanner.feed data).2.isDone := by
  rw [isDone_feed, isDone_feed, feed, feed, scan_withSave]
  exact ⟨rfl, rfl⟩

/-- A text is scanned alike, whatever is kept of it and however it is cut. -/
theorem feedAll_new_alike (boundary : Bytes) (save asked : Bool) {chunks recut : List Bytes}
    (hcut : chunks.flatten = recut.flatten) :
    (feedAll feed (new boundary save) chunks).1.flatten =
        (feedAll feed (new boundary asked) recut).1.flatten ∧
      (feedAll feed (new boundary save) chunks).2.isDone =
        (feedAll feed (new boundary asked) recut).2.isDone := by
  obtain ⟨hreturned, hcontrol⟩ := feedAll_eq_feed_flatten (new boundary save) chunks
  obtain ⟨hrecut, hother⟩ := feedAll_eq_feed_flatten (new boundary asked) recut
  obtain ⟨hsame, hdone⟩ := (new boundary save).feed_withSave asked recut.flatten
  rw [hreturned, hrecut, hcut, isDone_eq_of_control_eq hcontrol, isDone_eq_of_control_eq hother,
    hcut]
  exact ⟨hsame.symm, hdone.symm⟩

/-! ### What is kept -/

/-- The part of a text through the line feed of its boundary line.  A boundary without a
line feed has its first one there, and for any boundary no shorter part takes the scanner to
its end. -/
structure ThroughBoundaryLine (boundary text part : Bytes) : Prop where
  starts : part <+: text
  line : ∃ before padding, Byte.lf ∉ padding ∧
    part = before ++ pattern boundary ++ padding ++ [Byte.lf]
  first : Byte.lf ∉ boundary → ∃ start stop,
    FirstBoundaryLine boundary text start stop ∧ part.length = stop + 1
  shortest : ∀ shorter, shorter <+: part → shorter ≠ part →
    ((new boundary true).feed shorter).2.isDone = false

/-- A scanner which is done with a part of a text hands back what is behind the part. -/
theorem length_le_feed_append {first : Bytes} (h : (scanner.feed first).2.isDone = true)
    (second : Bytes) : second.length ≤ (scanner.feed (first ++ second)).1.length := by
  rw [feed_append_of_done h, List.length_append]
  omega

/-- What a scanner has kept when it is done, whatever follows in the text. -/
theorem throughBoundaryLine_skipped {fed : List Bytes}
    (h : (feedAll feed (new boundary true) fed).2.isDone = true) (behind : Bytes) :
    ThroughBoundaryLine boundary (fed.flatten ++ behind)
      (feedAll feed (new boundary true) fed).2.skipped := by
  obtain ⟨hreturned, -⟩ := feedAll_eq_feed_flatten (new boundary true) fed
  obtain ⟨taken, htext, hread, -⟩ := (hasRead_new boundary true).feeds fed
  rw [List.nil_append] at hread
  rw [hread.skipped_eq rfl]
  generalize feedAll feed (new boundary true) fed = ended at *
  have hdone : Phase.done.Describes boundary taken := by
    have hphase : ended.2.phase = .done := by simpa [isDone] using h
    exact hphase ▸ hread.phase
  obtain ⟨hline, hfirst⟩ := Phase.describes_done hdone
  have hwhole : fed.flatten ++ behind = taken ++ (ended.1.flatten ++ behind) := by
    rw [htext, List.append_assoc]
  refine ⟨⟨_, hwhole.symm⟩, hline, fun hboundary => ?_, fun shorter hstarts hne => ?_⟩
  · rw [hwhole]
    exact hfirst hboundary _
  · obtain ⟨more, rfl⟩ := hstarts
    have hmore : more ≠ [] := fun hnil => hne (by rw [hnil, List.append_nil])
    rw [← Bool.not_eq_true]
    intro hearly
    -- The bytes which are too many would have been handed back.
    have hleft := length_le_feed_append hearly (more ++ ended.1.flatten)
    rw [← List.append_assoc, ← htext, ← hreturned, List.length_append] at hleft
    have := List.length_pos_iff.mpr hmore
    omega

/-- At any time the bytes which are kept are those which are taken in. -/
theorem skipped_append_returned (boundary : Bytes) (fed : List Bytes) :
    (feedAll feed (new boundary true) fed).2.skipped ++
        (feedAll feed (new boundary true) fed).1.flatten = fed.flatten ∧
      ((feedAll feed (new boundary true) fed).2.isDone = false →
        (feedAll feed (new boundary true) fed).2.skipped = fed.flatten) := by
  obtain ⟨taken, htext, hread, hnothing⟩ := (hasRead_new boundary true).feeds fed
  rw [hread.skipped_eq rfl, List.nil_append]
  refine ⟨htext.symm, fun hopen => ?_⟩
  rw [htext, List.flatten_eq_nil_iff.mpr (hnothing hopen), List.append_nil]

/-- A scanner which is not asked for the bytes shows none. -/
theorem skipped_eq_nil (boundary : Bytes) (fed : List Bytes) :
    (feedAll feed (new boundary false) fed).2.skipped = [] := by
  obtain ⟨taken, -, hread, -⟩ := (hasRead_new boundary false).feeds fed
  rw [skipped, hread.save_eq, if_neg Bool.false_ne_true]

/-- A scanner which keeps its bytes and one which drops them hand back the same of a text,
however it is cut for each of them, and are done with the same texts.  Behind any of its
chunks the first one shows what it has taken in: all of it as long as it is not done, and
from then on the text through the boundary line.  The other one never shows anything. -/
theorem feedAll_keeping_alike {keeping dropping : Scanner}
    (hkeeping : keeping.AtStart boundary true) (hdropping : dropping.AtStart boundary false)
    {chunks recut : List Bytes} (hcut : chunks.flatten = recut.flatten) :
    (feedAll feed keeping chunks).1.flatten = (feedAll feed dropping recut).1.flatten ∧
      (feedAll feed keeping chunks).2.isDone = (feedAll feed dropping recut).2.isDone ∧
      (∀ fed, fed <+: chunks →
        (feedAll feed keeping fed).2.skipped ++ (feedAll feed keeping fed).1.flatten =
            fed.flatten ∧
          ((feedAll feed keeping fed).2.isDone = false →
            (feedAll feed keeping fed).2.skipped = fed.flatten) ∧
          ((feedAll feed keeping fed).2.isDone = true →
            ThroughBoundaryLine boundary chunks.flatten
              (feedAll feed keeping fed).2.skipped)) ∧
      ∀ fed, fed <+: recut → (feedAll feed dropping fed).2.skipped = [] := by
  rw [hkeeping.eq_new, hdropping.eq_new]
  obtain ⟨hreturned, hdone⟩ := feedAll_new_alike boundary true false hcut
  refine ⟨hreturned, hdone, ?_, fun fed _ => skipped_eq_nil boundary fed⟩
  rintro fed ⟨later, rfl⟩
  obtain ⟨hkept, hopen⟩ := skipped_append_returned boundary fed
  refine ⟨hkept, hopen, fun hend => ?_⟩
  rw [List.flatten_append]
  exact throughBoundaryLine_skipped hend later.flatten

/-- A boundary which holds a line feed, behind more bytes than stay in a buffer.  One
scanner was reset in the middle of another pattern.  The other one drops its buffer behind
its first chunk and in the padding. -/
theorem feedAll_keeping_alike_behind_long_text :
    let boundary : Bytes := [0x66, Byte.lf, 0x6F]
    let long : Bytes := List.replicate 4100 0x78
    let keeping := ((new [0x61] false).run [.feed [Byte.lf, 0x2D]]).reset boundary true
    let dropping := ((new boundary true).run [.feed [0x78]]).reset boundary false
    let chunks := [long ++ [Byte.lf, 0x2D], [], [0x2D, 0x66, Byte.lf, 0x6F] ++ long,
      [Byte.lf, 0x7A]]
    let recut := [long, [Byte.lf, 0x2D, 0x2D, 0x66], [Byte.lf, 0x6F] ++ long, [Byte.lf, 0x7A]]
    keeping.AtStart boundary true ∧ dropping.AtStart boundary false ∧
      chunks.flatten = recut.flatten ∧
      (feedAll feed dropping (recut.take 1)).2.buffer = [] ∧
      (feedAll feed keeping chunks).1.flatten = (feedAll feed dropping recut).1.flatten ∧
      (feedAll feed keeping chunks).2.isDone = (feedAll feed dropping recut).2.isDone ∧
      (feedAll feed keeping (chunks.take 3)).2.skipped ++
        (feedAll feed keeping (chunks.take 3)).1.flatten = (chunks.take 3).flatten ∧
      (feedAll feed dropping (recut.take 3)).2.skipped = [] := by
  intro boundary long keeping dropping chunks recut
  have hkeeping : keeping.AtStart boundary true :=
    .inr ⟨[0x61], false, [.feed [Byte.lf, 0x2D]], rfl⟩
  have hdropping : dropping.AtStart boundary false :=
    .inr ⟨boundary, true, [.feed [0x78]], rfl⟩
  have hcut : chunks.flatten = recut.flatten := by
    simp [chunks, recut]
  obtain ⟨hreturned, hdone, hkept, hnone⟩ := feedAll_keeping_alike hkeeping hdropping hcut
  exact ⟨hkeeping, hdropping, hcut, by decide +kernel, hreturned, hdone,
    (hkept _ (List.take_prefix 3 chunks)).1, hnone _ (List.take_prefix 3 recut)⟩

end Scanner

end Boundary

end StreamingHttp
