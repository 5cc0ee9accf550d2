import StreamingHttp.Entity.Basic
import StreamingHttp.Header.Fold
import StreamingHttp.Header.Line

/-!
# Incremental parser of a header block

The parser is fed byte strings as they arrive, cut anywhere.  It reads each line
when its line feed arrives and stops for good after the blank line: what was fed
beyond is handed back, and so is everything fed later.

A malformed line does not stop it.  The line is skipped and listed as a fault,
and no continuation line may follow it.

The parser keeps the block as it arrived.  Names and values are spans in it, and
a folded value is unfolded when it is asked for.
-/

namespace StreamingHttp

namespace Header

/-- What the parser expects next. -/
inductive Phase where
  /-- A request line or a status line. -/
  | startLine
  /-- A field, a continuation or the blank line. -/
  | fields
  /-- Nothing: the blank line has been read. -/
  | done
  deriving DecidableEq, Repr

/-- The first phase of a block with or without a start line. -/
def Phase.first (hasStartLine : Bool) : Phase :=
  if hasStartLine then .startLine else .fields

/-- The name of a phase. -/
def Phase.label : Phase → String
  | .startLine => "StartLine"
  | .fields => "Headers"
  | .done => "Done"

/-- A field of the block. -/
structure Entry where
  name : Span
  value : Span
  /-- Whether the value goes on over several lines. -/
  folded : Bool
  deriving DecidableEq, Repr

/-- Extends the value of a field by a continuation line.  A field without a
value takes the continuation for its value. -/
def Entry.extend (entry : Entry) (content : Span) : Entry :=
  if entry.value.isEmpty then
    { entry with value := content }
  else
    { entry with value := ⟨entry.value.start, content.stop⟩, folded := true }

/-- The state of the parser. -/
structure Parser where
  phase : Phase
  /-- The complete lines as they arrived. -/
  block : Bytes := []
  /-- The line which is not complete yet, newest byte first. -/
  unfinished : Bytes := []
  /-- How many lines are complete. -/
  lineCount : Nat := 0
  startSpan : Span := .none
  entries : List Entry := []
  /-- The field which a continuation line extends. -/
  foldTarget : Option Nat := none
  /-- The malformed lines, first line first. -/
  faults : List Fault := []
  deriving DecidableEq, Repr

namespace Parser

/-- A parser of a block with or without a start line. -/
def new (hasStartLine : Bool) : Parser where
  phase := .first hasStartLine

/-- Forgets everything and starts another block. -/
def reset (_before : Parser) (hasStartLine : Bool) : Parser :=
  new hasStartLine

/-- Whether the blank line has been read. -/
def isDone (parser : Parser) : Bool :=
  parser.phase == .done

/-- All bytes taken in so far. -/
def buffer (parser : Parser) : Bytes :=
  parser.block ++ parser.unfinished.reverse

/-- Lists the line read last as a fault. -/
def addFault (parser : Parser) (kind : FaultKind) : Parser :=
  { parser with
    faults := parser.faults ++ [⟨kind, parser.lineCount⟩]
    foldTarget := none }

/-- Adds a field, which continuation lines may extend. -/
def addField (parser : Parser) (name value : Span) : Parser :=
  { parser with
    entries := parser.entries ++ [⟨name, value, false⟩]
    foldTarget := some parser.entries.length }

/-- Reads the content of a continuation line.  A continuation of nothing but
blanks adds nothing. -/
def addContinuation (parser : Parser) (content : Span) : Parser :=
  match parser.foldTarget with
  | none => parser.addFault .orphanContinuation
  | some index =>
      if content.isEmpty then parser
      else
        { parser with
          entries := parser.entries.modify index fun entry =>
            entry.extend content }

/-- Acts on what the line read last says. -/
def act (parser : Parser) : Line → Parser
  | .blank => { parser with phase := .done }
  | .start content => { parser with phase := .fields, startSpan := content }
  | .continuation content => parser.addContinuation content
  | .field name value => parser.addField name value
  | .malformed kind => parser.addFault kind

/-- Takes in a complete line, its line feed included. -/
def addLine (parser : Parser) (line : Bytes) : Parser :=
  act
    { parser with
      block := parser.block ++ line
      unfinished := []
      lineCount := parser.lineCount + 1 }
    (Line.read (parser.phase == .startLine) parser.block.length line)

/-- Takes in one byte. -/
def push (parser : Parser) (b : UInt8) : Parser :=
  if b = Byte.lf then
    parser.addLine (b :: parser.unfinished).reverse
  else
    { parser with unfinished := b :: parser.unfinished }

/-- Takes in bytes up to the blank line.  What follows it is handed back. -/
def feed (parser : Parser) : Bytes → Bytes × Parser
  | [] => ([], parser)
  | b :: data =>
      if parser.isDone then (b :: data, parser)
      else (parser.push b).feed data

/-- The bytes of a span of the block. -/
def slice (parser : Parser) (span : Span) : Bytes :=
  span.slice parser.block

/-- The start line without its line end; empty if there is none. -/
def startLine (parser : Parser) : Bytes :=
  parser.slice parser.startSpan

/-- The name of a field. -/
def entryName (parser : Parser) (entry : Entry) : Bytes :=
  parser.slice entry.name

/-- The value of a field. -/
def entryValue (parser : Parser) (entry : Entry) : Bytes :=
  if entry.folded then unfold (parser.slice entry.value)
  else parser.slice entry.value

/-- Names and values of the fields in the order of the block, duplicates
included. -/
def headers (parser : Parser) : List (Bytes × Bytes) :=
  parser.entries.map fun entry =>
    (parser.entryName entry, parser.entryValue entry)

/-- How many fields there are, duplicates included. -/
def size (parser : Parser) : Nat :=
  parser.entries.length

/-- Whether there is no field. -/
def isEmpty (parser : Parser) : Bool :=
  parser.entries.isEmpty

/-- Whether a line was malformed. -/
def hasFault (parser : Parser) : Bool :=
  !parser.faults.isEmpty

/-- The value of the first field whose name satisfies a condition. -/
def valueOf? (parser : Parser) (p : Bytes → Bool) : Option Bytes :=
  (parser.headers.find? fun header => p header.1).map (·.2)

/-- The value of the first field of exactly this name. -/
def header? (parser : Parser) (name : String) : Option Bytes :=
  parser.valueOf? (· == Utf8.ofString name)

/-- The value of the first field of exactly this name, as text. -/
def headerText? (parser : Parser) (name : String) : Option String :=
  (parser.header? name).map Utf8.lossy

/-- The value of the first `Content-Type` field. -/
def contentType? (parser : Parser) : Option Bytes :=
  parser.valueOf? EntityField.contentType.isNamed

/-- The length which the first `Content-Length` field states. -/
def contentLength? (parser : Parser) : Option Nat :=
  (parser.valueOf? EntityField.contentLength.isNamed).bind
    StreamingHttp.contentLength?

/-- The state of the parser in one line. -/
def describe (parser : Parser) : String :=
  "HttpHeaderParser \x7b state: " ++ parser.phase.label
    ++ ", buffered: " ++ toString parser.buffer.length
    ++ ", headers: " ++ toString parser.size
    ++ ", errors: [" ++ ", ".intercalate (parser.faults.map Fault.text)
    ++ "] \x7d"

/-- Once the blank line has been read, everything is handed back. -/
theorem feed_of_isDone {parser : Parser} (h : parser.isDone = true)
    (data : Bytes) : parser.feed data = (data, parser) := by
  cases data with
  | nil => rfl
  | cons b data => simp [feed, h]

/-- Bytes which are fed at once may be cut anywhere: what the first part hands
back goes before the second part. -/
theorem feed_append (parser : Parser) (first second : Bytes) :
    parser.feed (first ++ second) =
      if (parser.feed first).2.isDone then
        ((parser.feed first).1 ++ second, (parser.feed first).2)
      else
        (parser.feed first).2.feed second := by
  induction first generalizing parser with
  | nil =>
      by_cases hphase : parser.isDone = true
      · simp [feed, hphase, feed_of_isDone hphase]
      · simp [feed, hphase]
  | cons b first ih =>
      by_cases hphase : parser.isDone = true
      · simp [feed, hphase]
      · simp [feed, hphase, ih]

theorem length_feed_le (parser : Parser) (data : Bytes) :
    (parser.feed data).1.length ≤ data.length := by
  induction data generalizing parser with
  | nil => exact Nat.le_refl _
  | cons b data ih =>
      unfold feed
      split
      · exact Nat.le_refl _
      · exact Nat.le_succ_of_le (ih _)

/-- A parser which is not done takes in one byte at least. -/
theorem length_feed_lt {parser : Parser} {data : Bytes}
    (hphase : parser.isDone = false) (hdata : data ≠ []) :
    (parser.feed data).1.length < data.length := by
  cases data with
  | nil => exact absurd rfl hdata
  | cons b data =>
      rw [feed, if_neg (by simp [hphase])]
      exact Nat.lt_succ_of_le (length_feed_le _ _)

end Parser

end Header

end StreamingHttp
