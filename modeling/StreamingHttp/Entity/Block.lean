import StreamingHttp.Entity.Basic
import StreamingHttp.Transport.Line

/-!
# Header blocks read from a transport

Of a header block which is read from a transport only the two fields which
describe an entity are kept.  Each line is read without the white space at its
end:

* a line of nothing else ends the block;
* a line which starts with white space continues the field before it;
* any other line starts a field, whose name ends at the first colon.

The text of a field, without the white space before it, is appended to the value
of the field of that name.  So continuations are joined without a space, and so
are fields which occur again.
-/

namespace StreamingHttp

open Transport

/-- What has been read of a header block. -/
structure EntityBlock where
  fields : EntityFields := {}
  /-- The field which continuations extend, if it is one of the two. -/
  current : Option EntityField := none
  deriving DecidableEq, Repr

namespace EntityBlock

/-- Appends text to the current field. -/
def addText (block : EntityBlock) (text : Bytes) : EntityBlock :=
  match block.current with
  | none => block
  | some field =>
      { block with
        fields := block.fields.append field (text.dropWhile Byte.isSpace) }

/-- Starts a field. -/
def startField (block : EntityBlock) (name : Bytes) : EntityBlock :=
  { block with current := EntityField.named? (Bytes.trimEnd Byte.isSpace name) }

/-- Takes in the text of a line: a continuation or a field. -/
def addLine (block : EntityBlock) (text : Bytes) : EntityBlock :=
  if text.head?.any Byte.isSpace then block.addText text
  else
    match Delimited.cut Byte.colon text with
    | (name, value) => (block.startField name).addText (value.getD [])

/-- Reads lines of `maxLine` bytes at most up to the end of the block. -/
def readFrom (maxLine : Nat) (block : EntityBlock) (reader : Reader) :
    EStateM.Result Failure Reader EntityFields :=
  match _ : reader.line maxLine with
  | .error failure after => .error failure after
  | .ok line after =>
      if Bytes.trimEnd Byte.isSpace line = [] then .ok block.fields after
      else
        readFrom maxLine (block.addLine (Bytes.trimEnd Byte.isSpace line)) after
termination_by reader.weight
decreasing_by exact Reader.weight_of_line_ok ‹_›

end EntityBlock

namespace EntityFields

/-- Reads a header block with lines of `maxLine` bytes at most. -/
def read (maxLine : Nat) (reader : Reader) :
    EStateM.Result Failure Reader EntityFields :=
  EntityBlock.readFrom maxLine {} reader

end EntityFields

end StreamingHttp
