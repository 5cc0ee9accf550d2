import StreamingHttp.Delimited
import StreamingHttp.Bytes

/-!
# Lines of a header block

A line of a header block is read without its line end, that is without the line
feed and every carriage return before it, and without the blanks which end it.
What is left is one of these:

* nothing before the line end: the blank line which ends the block;
* the start line, if one is expected;
* a line which starts with a blank: a continuation of the line before;
* a line with a name before its first colon: a field;
* anything else: a malformed line.

Contents are given as spans, which are positions in the whole block.
-/

namespace StreamingHttp

namespace Header

/-- The bytes from `start` up to, and not including, `stop`. -/
structure Span where
  start : Nat
  stop : Nat
  deriving DecidableEq, Repr

namespace Span

/-- The span of no bytes at the start of the block. -/
def none : Span := ⟨0, 0⟩

/-- Whether a span holds no byte. -/
def isEmpty (span : Span) : Bool :=
  span.start == span.stop

/-- The bytes which a span marks out. -/
def slice (span : Span) (bytes : Bytes) : Bytes :=
  (bytes.drop span.start).take (span.stop - span.start)

end Span

/-- Why a line cannot be used. -/
inductive FaultKind where
  /-- The line starts with a colon. -/
  | emptyName
  /-- A blank stands before the first colon. -/
  | whitespaceBeforeColon
  /-- The line has no colon. -/
  | missingColon
  /-- The line continues a field, and there is none before it. -/
  | orphanContinuation
  deriving DecidableEq, Repr

namespace FaultKind

/-- The short name of a kind of fault. -/
def label : FaultKind → String
  | .emptyName => "EmptyName"
  | .whitespaceBeforeColon => "WhitespaceBeforeColon"
  | .missingColon => "MissingColon"
  | .orphanContinuation => "OrphanContinuation"

/-- The wording of a kind of fault. -/
def message : FaultKind → String
  | .emptyName => "empty header name"
  | .whitespaceBeforeColon => "whitespace between header name and colon"
  | .missingColon => "header line without a colon"
  | .orphanContinuation => "continuation line without a preceding header"

end FaultKind

/-- A line which cannot be used.  Lines are numbered from 1, the start line
included. -/
structure Fault where
  kind : FaultKind
  line : Nat
  deriving DecidableEq, Repr

namespace Fault

/-- The wording of a fault. -/
def message (fault : Fault) : String :=
  s!"line {fault.line}: {fault.kind.message}"

/-- A fault as it is listed. -/
def text (fault : Fault) : String :=
  fault.kind.label ++ " \x7b line: " ++ toString fault.line ++ " \x7d"

end Fault

/-- What a line of a header block says. -/
inductive Line where
  /-- The end of the block. -/
  | blank
  | start (content : Span)
  /-- More of the value of a field. -/
  | continuation (content : Span)
  | field (name value : Span)
  | malformed (kind : FaultKind)
  deriving DecidableEq, Repr

namespace Line

/-- How many blanks a byte string starts with. -/
def indent (bytes : Bytes) : Nat :=
  (bytes.takeWhile Byte.isBlank).length

/-- Reads the trimmed text of a field line which starts at `offset`. -/
def ofFieldText (offset : Nat) (text : Bytes) : Line :=
  match Delimited.cut Byte.colon text with
  | (_, none) => .malformed .missingColon
  | (name, some value) =>
      match name.getLast? with
      | none => .malformed .emptyName
      | some last =>
          if Byte.isBlank last then .malformed .whitespaceBeforeColon
          else
            .field ⟨offset, offset + name.length⟩
              ⟨offset + name.length + 1 + indent value, offset + text.length⟩

/-- Reads a line, its line end included, which starts at `offset`. -/
def read (expectStart : Bool) (offset : Nat) (line : Bytes) : Line :=
  match Bytes.trimEnd Byte.isLineEnd line with
  | [] => .blank
  | first :: rest =>
      let text := Bytes.trimEnd Byte.isBlank (first :: rest)
      if expectStart then
        .start ⟨offset, offset + text.length⟩
      else if Byte.isBlank first then
        .continuation ⟨offset + indent text, offset + text.length⟩
      else
        ofFieldText offset text

end Line

end Header

end StreamingHttp
