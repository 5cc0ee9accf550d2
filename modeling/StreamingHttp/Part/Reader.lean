import StreamingHttp.Boundary.Scanner
import StreamingHttp.Header.Parser

/-!
# Parts of a multipart body, incrementally

The body of a multipart message is a sequence of parts, each a boundary line, a
header block and a content.  The reader alternates between a boundary scanner
and a header parser: the scanner skips content up to and including the next
boundary line, then the parser reads the header block, then the part is recorded
and both start again.

A body may start with a boundary line, with no line feed before it.  So the
scanner is fed one line feed first.
-/

namespace StreamingHttp

namespace Part

/-- What the header block of a part says. -/
structure Summary where
  faults : List Header.Fault
  contentType : Option Bytes
  contentLength : Option Nat
  /-- How many fields the block has. -/
  fieldCount : Nat
  deriving DecidableEq, Repr

/-- What a header parser has read. -/
def Summary.ofParser (parser : Header.Parser) : Summary where
  faults := parser.faults
  contentType := parser.contentType?
  contentLength := parser.contentLength?
  fieldCount := parser.size

/-- The state of the reader. -/
structure Reader where
  boundary : Bytes
  scanner : Boundary.Scanner
  parser : Header.Parser
  deriving DecidableEq, Repr

namespace Reader

/-- A scanner and a parser which have taken in nothing. -/
def new (boundary : Bytes) : Reader where
  boundary := boundary
  scanner := .new boundary false
  parser := .new false

/-- The reader at the start of a body. -/
def start (boundary : Bytes) : Reader :=
  { new boundary with
    scanner := ((new boundary).scanner.feed [Byte.lf]).2 }

/-- Starts scanner and parser again. -/
def restart (reader : Reader) : Reader :=
  { reader with
    scanner := reader.scanner.reset reader.boundary false
    parser := reader.parser.reset false }

/-- Bounds the rounds which are left: two for each byte, and one more for a
header block which waits to be read. -/
def rounds (reader : Reader) (data : Bytes) : Nat :=
  2 * data.length + if reader.scanner.isDone then 1 else 0

theorem rounds_restart (reader : Reader) (data : Bytes) :
    reader.restart.rounds data = 2 * data.length :=
  rfl

theorem rounds_lt {before after : Reader} {data rest : Bytes}
    (h : rest.length < data.length) :
    after.rounds rest < before.rounds data := by
  unfold rounds
  split <;> split <;> omega

/-- A round of the parser which ends a block leaves fewer rounds. -/
theorem rounds_restart_lt {reader : Reader} {data : Bytes}
    (hscanner : reader.scanner.isDone = true) :
    reader.restart.rounds (reader.parser.feed data).1 < reader.rounds data := by
  have := Header.Parser.length_feed_le reader.parser data
  rw [rounds_restart]
  simp only [rounds, hscanner, if_true]
  omega

/-- A parser which is not done after a feed was not done before it, so it has
taken in one byte at least. -/
theorem length_feed_lt_of_not_done {parser : Header.Parser} {data : Bytes}
    (hafter : (parser.feed data).2.isDone = false) (hdata : data ≠ []) :
    (parser.feed data).1.length < data.length := by
  refine Header.Parser.length_feed_lt ?_ hdata
  cases hbefore : parser.isDone with
  | false => rfl
  | true =>
      rw [Header.Parser.feed_of_isDone hbefore, hbefore] at hafter
      cases hafter

/-- Takes in the next bytes of the body.  The parts whose header blocks have
ended are given back. -/
def feed (reader : Reader) (data : Bytes) : List Summary × Reader :=
  if data = [] then ([], reader)
  else if reader.scanner.isDone = true then
    if (reader.parser.feed data).2.isDone = true then
      let more := feed reader.restart (reader.parser.feed data).1
      (.ofParser (reader.parser.feed data).2 :: more.1, more.2)
    else
      feed { reader with parser := (reader.parser.feed data).2 }
        (reader.parser.feed data).1
  else
    feed { reader with scanner := (reader.scanner.feed data).2 }
      (reader.scanner.feed data).1
termination_by reader.rounds data
decreasing_by
  · next hscanner _ => exact rounds_restart_lt hscanner
  · next hdata _ hparser =>
      exact rounds_lt (length_feed_lt_of_not_done (by simpa using hparser) hdata)
  · next hdata hscanner =>
      exact rounds_lt
        (Boundary.Scanner.length_feed_lt (by simpa using hscanner) hdata)

end Reader

end Part

end StreamingHttp
