import StreamingHttp.Boundary.Search
import StreamingHttp.Entity.Block

/-!
# Parts read from a transport

The next part of a multipart body is read in three steps: search the delimiter,
finish its line, read the header block.  Two hyphens right after the delimiter
make it the closing one, and then there is no next part.
-/

namespace StreamingHttp

namespace Part

open Transport

/-- Reads up to and including the delimiter. -/
def skipDelimiter (boundary : Bytes) : Reading Unit := fun reader =>
  (Boundary.search boundary none reader).result

/-- Reads a line and drops it. -/
def skipLine (maxLine : Nat) : Reading Unit := fun reader =>
  match reader.line maxLine with
  | .ok _ after => .ok () after
  | .error failure after => .error failure after

/-- Reads a single byte. -/
def readOne : Reading Bytes := fun reader => reader.readExact 1

/-- Reads what follows a delimiter: two hyphens, or the rest of the line.  Tells
whether it was two hyphens. -/
def finishDelimiter (maxLine : Nat) : Reading Bool := do
  let first ← readOne
  let last ← if first = [Byte.dash] then readOne else pure first
  if first = [Byte.dash] ∧ last = [Byte.dash] then
    return true
  else if last = [Byte.lf] then
    return false
  else
    skipLine maxLine
    return false

/-- Reads up to the content of the next part, and gives the fields of its header
block.  `none` stands for the end of the body. -/
def next (maxLine : Nat) (boundary : Bytes) :
    Reading (Option EntityFields) := do
  skipDelimiter boundary
  if ← finishDelimiter maxLine then
    return none
  else
    let fields ← EntityFields.read maxLine
    return some fields

end Part

end StreamingHttp
