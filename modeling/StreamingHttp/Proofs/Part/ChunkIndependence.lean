import StreamingHttp.Part.Reader
import StreamingHttp.Proofs.Boundary.ChunkIndependence
import StreamingHttp.Proofs.Header.ChunkIndependence

/-!
# The reader of parts does not see how its input is cut

Scanner and parser hand each other what is left of a chunk, and both start again in the
middle of it.  Still two chunks may be fed at once: the same parts are given back, in the
same order, and the reader goes on in the same way.

Only the bytes which the scanner keeps depend on the cuts, because it drops them after
every feed which leaves many.  Nobody asks for them, so a reader is compared by its
*control*, which is everything else.
-/

namespace StreamingHttp

namespace Part

namespace Reader

open Boundary

/-- What decides how a reader goes on. -/
structure Control where
  boundary : Bytes
  scanner : Scanner.Control
  parser : Header.Parser
  deriving DecidableEq, Repr

/-- A reader without the bytes which its scanner keeps. -/
def control (reader : Reader) : Control where
  boundary := reader.boundary
  scanner := reader.scanner.control
  parser := reader.parser

/-! ### One round -/

section Round

variable {reader : Reader} {data : Bytes}

theorem feed_nil (reader : Reader) : reader.feed [] = ([], reader) := by
  rw [feed, if_pos rfl]

/-- The boundary line is searched in the data. -/
theorem feed_of_searching (hscanner : reader.scanner.isDone = false) (hdata : data ≠ []) :
    reader.feed data =
      feed { reader with scanner := (reader.scanner.feed data).2 }
        (reader.scanner.feed data).1 := by
  rw [feed, if_neg hdata, if_neg (by simp [hscanner])]

/-- A header block which does not end in the data takes it in. -/
theorem feed_of_block_open (hscanner : reader.scanner.isDone = true)
    (hparser : (reader.parser.feed data).2.isDone = false) :
    reader.feed data = ([], { reader with parser := (reader.parser.feed data).2 }) := by
  by_cases hdata : data = []
  · subst hdata
    exact feed_nil reader
  · rw [feed, if_neg hdata, if_pos hscanner, if_neg (by simp [hparser]),
      Header.Parser.feed_fst_of_not_done hparser, feed_nil]

/-- A header block which ends in the data makes a part. -/
theorem feed_of_block_closed (hscanner : reader.scanner.isDone = true)
    (hparser : (reader.parser.feed data).2.isDone = true) (hdata : data ≠ []) :
    reader.feed data =
      (.ofParser (reader.parser.feed data).2 ::
          (reader.restart.feed (reader.parser.feed data).1).1,
        (reader.restart.feed (reader.parser.feed data).1).2) := by
  rw [feed, if_neg hdata, if_pos hscanner, if_pos hparser]

end Round

variable {reader other : Reader}

theorem control_eq_iff :
    reader.control = other.control ↔
      reader.boundary = other.boundary ∧
        reader.scanner.control = other.scanner.control ∧
        reader.parser = other.parser := by
  simp [control]

/-- Readers of the same control give back the same parts, and go on as readers of the
same control. -/
theorem feed_eq_of_control_eq (h : reader.control = other.control) (data : Bytes) :
    (reader.feed data).1 = (other.feed data).1 ∧
      (reader.feed data).2.control = (other.feed data).2.control := by
  induction reader, data using feed.induct generalizing other with
  | case1 reader =>
      rw [feed_nil, feed_nil]
      exact ⟨rfl, h⟩
  | case2 reader data hdata hsearched hclosed ih =>
      obtain ⟨hboundary, hscanner, hparser⟩ := control_eq_iff.mp h
      have hother : other.scanner.isDone = true :=
        (Scanner.isDone_eq_of_control_eq hscanner).symm.trans hsearched
      have hrestart : reader.restart.control = other.restart.control := by
        simp [control, restart, Scanner.reset, hboundary, Header.Parser.reset]
      have hmore := ih hrestart
      rw [feed_of_block_closed hsearched hclosed hdata]
      rw [hparser] at hclosed hmore ⊢
      rw [feed_of_block_closed hother hclosed hdata]
      exact ⟨congrArg (_ :: ·) hmore.1, hmore.2⟩
  | case3 reader data hdata hsearched hopen =>
      obtain ⟨hboundary, hscanner, hparser⟩ := control_eq_iff.mp h
      have hother : other.scanner.isDone = true :=
        (Scanner.isDone_eq_of_control_eq hscanner).symm.trans hsearched
      rw [Bool.not_eq_true] at hopen
      rw [feed_of_block_open hsearched hopen]
      rw [hparser] at hopen ⊢
      rw [feed_of_block_open hother hopen]
      exact ⟨rfl, control_eq_iff.mpr ⟨hboundary, hscanner, rfl⟩⟩
  | case4 reader data hdata hsearching ih =>
      obtain ⟨hboundary, hscanner, hparser⟩ := control_eq_iff.mp h
      rw [Bool.not_eq_true] at hsearching
      have hother : other.scanner.isDone = false :=
        (Scanner.isDone_eq_of_control_eq hscanner).symm.trans hsearching
      have hfed := Scanner.feed_eq_of_control_eq hscanner data
      rw [feed_of_searching hsearching hdata, feed_of_searching hother hdata, ← hfed.1]
      exact ih (control_eq_iff.mpr ⟨hboundary, hfed.2, hparser⟩)

/-! ### Two chunks -/

/-- A header block which is open between two chunks goes on in the second one. -/
theorem feed_append_of_block_open {first : Bytes}
    (hscanner : reader.scanner.isDone = true)
    (hopen : (reader.parser.feed first).2.isDone = false) (second : Bytes) :
    reader.feed (first ++ second) =
      feed { reader with parser := (reader.parser.feed first).2 } second := by
  have hparser : reader.parser.feed (first ++ second) =
      (reader.parser.feed first).2.feed second := by
    rw [Header.Parser.feed_append, if_neg (by simp [hopen])]
  by_cases hsecond : second = []
  · subst hsecond
    rw [List.append_nil, feed_nil, feed_of_block_open hscanner hopen]
  · have hboth : first ++ second ≠ [] := List.append_ne_nil_of_right_ne_nil first hsecond
    have hmiddle : ({ reader with parser := (reader.parser.feed first).2 } :
        Reader).scanner.isDone = true := hscanner
    cases hlater : (reader.parser.feed (first ++ second)).2.isDone with
    | true =>
        rw [feed_of_block_closed hscanner hlater hboth]
        rw [hparser] at hlater ⊢
        exact (feed_of_block_closed hmiddle hlater hsecond).symm
    | false =>
        rw [feed_of_block_open hscanner hlater]
        rw [hparser] at hlater ⊢
        exact (feed_of_block_open hmiddle hlater).symm

/-- A search which is not over between two chunks goes on in the second one. -/
theorem feed_append_of_searching {first : Bytes}
    (hscanner : reader.scanner.isDone = false) (hfirst : first ≠ [])
    (hopen : (reader.scanner.feed first).2.isDone = false) (second : Bytes) :
    (reader.feed (first ++ second)).1 =
        (feed { reader with scanner := (reader.scanner.feed first).2 } second).1 ∧
      (reader.feed (first ++ second)).2.control =
        (feed { reader with scanner := (reader.scanner.feed first).2 } second).2.control := by
  by_cases hsecond : second = []
  · subst hsecond
    rw [List.append_nil, feed_of_searching hscanner hfirst,
      Scanner.feed_fst_of_not_done hopen]
    exact ⟨rfl, rfl⟩
  · have hboth : first ++ second ≠ [] := List.append_ne_nil_of_left_ne_nil hfirst second
    obtain ⟨hrest, hsame⟩ := Scanner.feed_append_of_not_done hopen second
    have hsecondFed : feed { reader with scanner := (reader.scanner.feed first).2 } second =
        feed { reader with scanner := ((reader.scanner.feed first).2.feed second).2 }
          ((reader.scanner.feed first).2.feed second).1 :=
      feed_of_searching hopen hsecond
    have hcontrol :
        ({ reader with scanner := (reader.scanner.feed (first ++ second)).2 } :
          Reader).control =
        ({ reader with scanner := ((reader.scanner.feed first).2.feed second).2 } :
          Reader).control :=
      control_eq_iff.mpr ⟨rfl, hsame, rfl⟩
    -- The two scanners may have dropped different bytes.
    rw [feed_of_searching hscanner hboth, hsecondFed, hrest]
    exact feed_eq_of_control_eq hcontrol _

/-- Two chunks may be fed at once. -/
theorem feed_append (reader : Reader) (first second : Bytes) :
    (reader.feed (first ++ second)).1 =
        (reader.feed first).1 ++ ((reader.feed first).2.feed second).1 ∧
      (reader.feed (first ++ second)).2.control =
        ((reader.feed first).2.feed second).2.control := by
  induction reader, first using feed.induct with
  | case1 reader =>
      rw [feed_nil]
      exact ⟨rfl, rfl⟩
  | case2 reader first hfirst hsearched hclosed ih =>
      -- The part ends in the first chunk, and what is left of both is fed after it.
      have hboth : first ++ second ≠ [] := List.append_ne_nil_of_left_ne_nil hfirst second
      have hparser : reader.parser.feed (first ++ second) =
          ((reader.parser.feed first).1 ++ second, (reader.parser.feed first).2) := by
        rw [Header.Parser.feed_append, if_pos hclosed]
      have hclosed' : (reader.parser.feed (first ++ second)).2.isDone = true := by
        rw [hparser]
        exact hclosed
      rw [feed_of_block_closed hsearched hclosed' hboth,
        feed_of_block_closed hsearched hclosed hfirst, hparser]
      exact ⟨congrArg (_ :: ·) ih.1, ih.2⟩
  | case3 reader first hfirst hsearched hopen =>
      rw [Bool.not_eq_true] at hopen
      rw [feed_append_of_block_open hsearched hopen, feed_of_block_open hsearched hopen]
      exact ⟨rfl, rfl⟩
  | case4 reader first hfirst hsearching ih =>
      rw [Bool.not_eq_true] at hsearching
      rw [feed_of_searching hsearching hfirst]
      -- Only a scanner which is done hands back the rest of the first chunk.
      cases hfound : (reader.scanner.feed first).2.isDone with
      | true =>
          have hboth : first ++ second ≠ [] :=
            List.append_ne_nil_of_left_ne_nil hfirst second
          rw [feed_of_searching hsearching hboth, Scanner.feed_append_of_done hfound]
          exact ih
      | false =>
          rw [Scanner.feed_fst_of_not_done hfound, feed_nil]
          exact feed_append_of_searching hsearching hfirst hfound second

/-- However the bytes are cut into chunks, the reader gives back what it gives back for
all of them at once, and goes on in the same way. -/
theorem feedAll_eq_feed_flatten (reader : Reader) (chunks : List Bytes) :
    (feedAll feed reader chunks).1.flatten = (reader.feed chunks.flatten).1 ∧
      (feedAll feed reader chunks).2.control = (reader.feed chunks.flatten).2.control := by
  induction chunks generalizing reader with
  | nil =>
      rw [List.flatten_nil, feed_nil]
      exact ⟨rfl, rfl⟩
  | cons chunk later ih =>
      obtain ⟨hparts, hcontrol⟩ := reader.feed_append chunk later.flatten
      obtain ⟨hlater, hend⟩ := ih (reader.feed chunk).2
      rw [List.flatten_cons, hparts, hcontrol, feedAll, List.flatten_cons, hlater]
      exact ⟨rfl, hend⟩

end Reader

end Part

end StreamingHttp
