import StreamingHttp.Proofs.Part.ChunkIndependence

/-!
# Rounds of the reader of parts

A feed is a loop.  As long as data is left, a *round* hands it to the scanner, or, once
the boundary line has been found, to the parser.  A parser which ends its block makes a
part, and then both start again.

* A round takes in at least one byte, unless both machines are done; and the parser is
  never done when a round begins (`AwaitsBlock`), because it starts again at once.
* `Loops` lists the rounds of a feed, each of which leaves less data than it found.
  `loops_feed` shows that every feed is such a list, whatever was fed before.

So the loop ends, and what it gives back does not depend on the cuts of its input.  The
boundary may hold line feeds.
-/

namespace StreamingHttp

namespace Part

namespace Reader

/-- What a round leaves. -/
structure Round where
  /-- The part whose header block has ended in this round. -/
  part : Option Summary
  /-- The data for the rounds after it. -/
  rest : Bytes
  reader : Reader

/-- Feeds data to one of the two machines. -/
def round (reader : Reader) (data : Bytes) : Round :=
  if reader.scanner.isDone = true then
    if (reader.parser.feed data).2.isDone = true then
      { part := some (.ofParser (reader.parser.feed data).2)
        rest := (reader.parser.feed data).1
        reader := reader.restart }
    else
      { part := none
        rest := (reader.parser.feed data).1
        reader := { reader with parser := (reader.parser.feed data).2 } }
  else
    { part := none
      rest := (reader.scanner.feed data).1
      reader := { reader with scanner := (reader.scanner.feed data).2 } }

/-- The parser has not read the blank line of its block. -/
def AwaitsBlock (reader : Reader) : Prop :=
  reader.parser.isDone = false

/-- The rounds of a loop over data: the parts which they give back, and the reader
after them.  Every round leaves less data. -/
inductive Loops : Reader → Bytes → List Summary → Reader → Prop
  | stop (reader : Reader) : Loops reader [] [] reader
  | round {reader after : Reader} {data : Bytes} {later : List Summary}
      (hshorter : (reader.round data).rest.length < data.length)
      (hlater : Loops (reader.round data).reader (reader.round data).rest later after) :
      Loops reader data ((reader.round data).part.toList ++ later) after

variable {reader : Reader} {data : Bytes}

/-! ### One round -/

/-- While data is left, a feed is a round and a feed of what it leaves. -/
theorem feed_eq_round (reader : Reader) (hdata : data ≠ []) :
    reader.feed data =
      ((reader.round data).part.toList ++
          ((reader.round data).reader.feed (reader.round data).rest).1,
        ((reader.round data).reader.feed (reader.round data).rest).2) := by
  rw [feed, if_neg hdata, round]
  split
  · split
    · rfl
    · rfl
  · rfl

/-- The machine which takes the data is not done, so it takes one byte at least. -/
theorem AwaitsBlock.length_rest_lt (h : reader.AwaitsBlock) (hdata : data ≠ []) :
    (reader.round data).rest.length < data.length := by
  have hparser : (reader.parser.feed data).1.length < data.length :=
    Header.Parser.length_feed_lt h hdata
  rw [round]
  split
  · split
    · exact hparser
    · exact hparser
  · next hsearching =>
      exact Boundary.Scanner.length_feed_lt (by simpa using hsearching) hdata

/-- A parser which ends its block starts again in the same round. -/
theorem AwaitsBlock.round (h : reader.AwaitsBlock) (data : Bytes) :
    (reader.round data).reader.AwaitsBlock := by
  rw [Reader.round]
  split
  · split
    · rfl
    · next hopen => simpa [AwaitsBlock] using hopen
  · exact h

theorem awaitsBlock_start (boundary : Bytes) : (start boundary).AwaitsBlock :=
  rfl

/-! ### All rounds -/

/-- A feed is a loop of such rounds, and leaves a parser which awaits a block. -/
theorem AwaitsBlock.loops_feed (h : reader.AwaitsBlock) (data : Bytes) :
    Loops reader data (reader.feed data).1 (reader.feed data).2 ∧
      (reader.feed data).2.AwaitsBlock := by
  induction hlength : data.length using Nat.strong_induction_on
    generalizing reader data with
  | _ length ih =>
      by_cases hdata : data = []
      · subst hdata
        rw [feed_nil]
        exact ⟨.stop reader, h⟩
      · have hshorter := h.length_rest_lt hdata
        obtain ⟨hlater, hafter⟩ := ih _ (hlength ▸ hshorter) (h.round data)
          (reader.round data).rest rfl
        rw [feed_eq_round reader hdata]
        exact ⟨.round hshorter hlater, hafter⟩

/-- So does any number of feeds. -/
theorem AwaitsBlock.feedAll (h : reader.AwaitsBlock) (chunks : List Bytes) :
    (StreamingHttp.feedAll feed reader chunks).2.AwaitsBlock := by
  induction chunks generalizing reader with
  | nil => exact h
  | cons chunk later ih => exact ih (h.loops_feed chunk).2

/-- However the same bytes are cut into chunks, the same parts are given back in the same
order, and afterwards the scanner has found a boundary line or not, and the parser holds
as many fields.  Whatever was fed before, the loop over the next chunk takes in a byte at
least in each of its rounds. -/
theorem feedAll_start_eq (boundary : Bytes) {chunks recut : List Bytes}
    (hcut : chunks.flatten = recut.flatten) :
    let one := StreamingHttp.feedAll feed (start boundary) chunks
    let other := StreamingHttp.feedAll feed (start boundary) recut
    one.1.flatten = other.1.flatten ∧
      one.2.scanner.isDone = other.2.scanner.isDone ∧
      one.2.parser.size = other.2.parser.size ∧
      ∀ next, Loops one.2 next (one.2.feed next).1 (one.2.feed next).2 := by
  intro one other
  obtain ⟨hparts, hcontrol⟩ := (start boundary).feedAll_eq_feed_flatten chunks
  obtain ⟨hotherParts, hotherControl⟩ := (start boundary).feedAll_eq_feed_flatten recut
  rw [hcut] at hparts hcontrol
  obtain ⟨-, hscanner, hparser⟩ :=
    control_eq_iff.mp (hcontrol.trans hotherControl.symm)
  refine ⟨hparts.trans hotherParts.symm,
    Boundary.Scanner.isDone_eq_of_control_eq hscanner,
    congrArg Header.Parser.size hparser, fun next => ?_⟩
  exact (((awaitsBlock_start boundary).feedAll chunks).loops_feed next).1

/-- A boundary which ends with a line feed.  One cut divides the boundary line, another
one the header block, and a third one hands the rest of a line to the scanner. -/
theorem feedAll_start_eq_cut_in_block :
    let boundary : Bytes := [0x61, 0x0A]
    let chunks : List Bytes :=
      [[0x2D, 0x2D, 0x61], [], [0x0A, 0x0A, 0x58, 0x3A, 0x31, 0x0A],
        [0x0A, 0x62, 0x0A, 0x2D, 0x2D, 0x61, 0x0A, 0x63, 0x0A, 0x59]]
    let recut : List Bytes :=
      [[0x2D, 0x2D, 0x61, 0x0A, 0x0A, 0x58], [0x3A, 0x31, 0x0A, 0x0A, 0x62],
        [0x0A, 0x2D, 0x2D, 0x61, 0x0A, 0x63], [0x0A, 0x59]]
    let one := StreamingHttp.feedAll feed (start boundary) chunks
    let other := StreamingHttp.feedAll feed (start boundary) recut
    chunks.flatten = recut.flatten ∧
      one.1.flatten = other.1.flatten ∧
      one.2.scanner.isDone = other.2.scanner.isDone ∧
      one.2.parser.size = other.2.parser.size ∧
      ∀ next, Loops one.2 next (one.2.feed next).1 (one.2.feed next).2 := by
  intro boundary chunks recut one other
  have hcut : chunks.flatten = recut.flatten := by decide
  exact ⟨hcut, feedAll_start_eq boundary hcut⟩

end Reader

end Part

end StreamingHttp
