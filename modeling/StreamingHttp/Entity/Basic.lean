import StreamingHttp.Decimal
import StreamingHttp.Delimited
import StreamingHttp.Text.Utf8

/-!
# Fields which describe an entity

Two fields of a header block say what follows the block: the media type and the
length.  This module reads the values of both:

* a length is a decimal number below `2 ^ 64`, in any number of digits;
* the boundary of a media type is the first parameter named `boundary`, and
  only media types whose name starts with `multipart/` have one.  A value may be
  quoted, and then the quotes are removed and nothing inside them is.

White space around a value, a name or a media type does not count, and neither
does the case of letters in names.
-/

namespace StreamingHttp

/-- The two fields which describe an entity. -/
inductive EntityField where
  | contentType
  | contentLength
  deriving DecidableEq, Repr

namespace EntityField

/-- The name of a field, in the usual case. -/
def name : EntityField → Bytes
  | .contentType => Utf8.ofString "Content-Type"
  | .contentLength => Utf8.ofString "Content-Length"

/-- Whether the bytes name the field, in any case. -/
def isNamed (field : EntityField) (bytes : Bytes) : Bool :=
  Bytes.sameIgnoringCase bytes field.name

/-- The field which the bytes name. -/
def named? (bytes : Bytes) : Option EntityField :=
  if contentType.isNamed bytes then some .contentType
  else if contentLength.isNamed bytes then some .contentLength
  else none

end EntityField

/-- The first number which is too large for a length: `2 ^ 64`. -/
def lengthBound : Nat := 18446744073709551616

/-- The length which the value of a `Content-Length` field states. -/
def contentLength? (value : Bytes) : Option Nat :=
  Decimal.read? lengthBound (Bytes.trim Byte.isSpace value)

namespace MediaType

/-- What the name of a media type in parts starts with. -/
def multipartMark : Bytes := Utf8.ofString "multipart/"

/-- The name of the parameter which holds the boundary. -/
def boundaryName : Bytes := Utf8.ofString "boundary"

/-- Whether the name of a media type starts with `multipart/`, in any case. -/
def isMultipart (name : Bytes) : Bool :=
  Bytes.sameIgnoringCase (name.take multipartMark.length) multipartMark

/-- Removes the quotes of a value which has one at each end. -/
def unquote (value : Bytes) : Bytes :=
  match value with
  | first :: rest =>
      if first = Byte.quote ∧ rest.getLast? = some Byte.quote then rest.dropLast
      else value
  | [] => []

/-- The boundary which one parameter states. -/
def boundaryValue? (parameter : Bytes) : Option Bytes :=
  match Delimited.cut Byte.equals (Bytes.trim Byte.isSpace parameter) with
  | (name, some value) =>
      if Bytes.sameIgnoringCase (Bytes.trim Byte.isSpace name) boundaryName then
        some (unquote (Bytes.trim Byte.isSpace value))
      else none
  | (_, none) => none

/-- The boundary which the value of a `Content-Type` field states. -/
def boundary? (value : Bytes) : Option Bytes :=
  match value.splitOn Byte.semicolon with
  | name :: parameters =>
      if isMultipart (Bytes.trim Byte.isSpace name) then
        parameters.findSome? boundaryValue?
      else none
  | [] => none

end MediaType

/-- The raw values of the two fields.  A field which is absent is empty. -/
structure EntityFields where
  contentType : Bytes := []
  contentLength : Bytes := []
  deriving DecidableEq, Repr

namespace EntityFields

/-- The length, if it is stated. -/
def length? (fields : EntityFields) : Option Nat :=
  contentLength? fields.contentLength

/-- The boundary, if the media type states one. -/
def boundary? (fields : EntityFields) : Option Bytes :=
  MediaType.boundary? fields.contentType

/-- Appends to the value of a field. -/
def append (fields : EntityFields) (field : EntityField) (value : Bytes) :
    EntityFields :=
  match field with
  | .contentType =>
      { fields with contentType := fields.contentType ++ value }
  | .contentLength =>
      { fields with contentLength := fields.contentLength ++ value }

end EntityFields

end StreamingHttp
