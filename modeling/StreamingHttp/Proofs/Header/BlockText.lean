import StreamingHttp.Header.Parser
import StreamingHttp.Proofs.Lines

/-!
# What a header block says

This module reads a header block off its text, with all lines at hand and without
positions.  The lines count from 1, each without its line feed and the carriage
returns before it.  The first empty line ends the block.

* A line which starts with a blank is a continuation.  It belongs to the nearest
  line before it which is no continuation, and to nothing if that is no field.
* Any other line is a field or malformed.
* The value of a field is made of its own text and the texts of its
  continuations, each without the blanks at its ends.  Those which are not empty
  are joined by one space.

The start line, if there is one, counts as a line, but nothing continues it.
-/

namespace StreamingHttp

namespace Header

/-- A line without its line feed and the carriage returns before it. -/
def content (line : Bytes) : Bytes :=
  Bytes.trimEnd (· == Byte.cr) line.dropLast

/-- Whether a line belongs to a line before it. -/
def isContinuation (line : Bytes) : Bool :=
  line.head?.any Byte.isBlank

/-- Name and value of a line which is no continuation, or what is wrong with
it. -/
def readField (line : Bytes) : Except FaultKind (Bytes × Bytes) :=
  match Delimited.cut Byte.colon (Bytes.trimEnd Byte.isBlank line) with
  | (_, none) => .error .missingColon
  | (name, some value) =>
      if name = [] then .error .emptyName
      else if name.getLast?.any Byte.isBlank then .error .whitespaceBeforeColon
      else .ok (name, Bytes.trim Byte.isBlank value)

/-- Whether a line is a field. -/
def isField (line : Bytes) : Bool :=
  !isContinuation line && (readField line).isOk

/-- The pieces of a value which are not empty, joined by one space. -/
def joined (pieces : List Bytes) : Bytes :=
  [Byte.space].intercalate (pieces.filter (· ≠ []))

/-- Names and values of the fields among some lines. -/
def fieldsOf : List Bytes → List (Bytes × Bytes)
  | [] => []
  | line :: later =>
      if isContinuation line then fieldsOf later
      else
        match readField line with
        | .error _ => fieldsOf later
        | .ok (name, value) =>
            (name, joined (value :: (later.takeWhile isContinuation).map
              (Bytes.trim Byte.isBlank))) :: fieldsOf later

/-- Whether a continuation belongs to a field, after some lines, newest first. -/
def followsField (before : List Bytes) : Bool :=
  (before.dropWhile isContinuation).head?.any isField

/-- What is wrong with a line, after some lines, newest first. -/
def faultKind? (before : List Bytes) (line : Bytes) : Option FaultKind :=
  if isContinuation line then
    if followsField before then none else some .orphanContinuation
  else
    match readField line with
    | .error kind => some kind
    | .ok _ => none

/-- The faults of some lines, the first of which has this number and comes after
some lines, newest first. -/
def faultsOf (number : Nat) (before : List Bytes) : List Bytes → List Fault
  | [] => []
  | line :: later =>
      (faultKind? before line).toList.map (⟨·, number⟩)
        ++ faultsOf (number + 1) (line :: before) later

/-- A header block and what follows it. -/
structure Block where
  /-- Whether an empty line ends the block. -/
  closed : Bool
  startLine : Bytes
  /-- Names and values of the fields. -/
  fields : List (Bytes × Bytes)
  faults : List Fault
  /-- The bytes after the empty line. -/
  rest : Bytes
  deriving DecidableEq, Repr

namespace Block

/-- The lines of a block before the empty line which ends it. -/
def body (lines : List Bytes) : List Bytes :=
  (lines.map content).takeWhile (· ≠ [])

/-- The lines of a block which are read as fields: all of them but the start
line. -/
def fieldLines (hasStartLine : Bool) (lines : List Bytes) : List Bytes :=
  if hasStartLine then (body lines).tail else body lines

/-- Whether an empty line ends the block. -/
def isClosed (lines : List Bytes) : Bool :=
  (lines.map content).contains []

/-- The bytes after the empty line which ends the block; none if it is open. -/
def restOf (lines : List Bytes) (unterminated : Bytes) : Bytes :=
  if isClosed lines then
    (lines.drop ((body lines).length + 1)).flatten ++ unterminated
  else []

/-- The header block which a text starts with. -/
def ofText (hasStartLine : Bool) (text : Bytes) : Block where
  closed := isClosed (Bytes.lines text)
  startLine :=
    if hasStartLine then
      Bytes.trimEnd Byte.isBlank ((body (Bytes.lines text)).headD [])
    else []
  fields := fieldsOf (fieldLines hasStartLine (Bytes.lines text))
  faults := faultsOf (if hasStartLine then 2 else 1) []
    (fieldLines hasStartLine (Bytes.lines text))
  rest := restOf (Bytes.lines text) (Bytes.unterminated text)

/-- What a parser has read, and what it has handed back. -/
def ofParser (returned : Bytes) (parser : Parser) : Block where
  closed := parser.isDone
  startLine := parser.startLine
  fields := parser.headers
  faults := parser.faults
  rest := returned

end Block

/-- Carriage returns stand only in runs which a line feed or the end of the text
follows. -/
def CarriageReturnsEndLines (text : Bytes) : Prop :=
  text.IsChain fun b next => b = Byte.cr → next = Byte.cr ∨ next = Byte.lf

instance (text : Bytes) : Decidable (CarriageReturnsEndLines text) :=
  inferInstanceAs (Decidable (text.IsChain _))

end Header

end StreamingHttp
