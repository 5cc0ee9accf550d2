import StreamingHttp.Text.Utf8

/-!
# Percent-encoding

The codec of URL paths and query strings, on raw bytes.

* `encode` passes the unreserved bytes (letters, digits and `-`, `_`, `.`, `~`)
  through and writes every other byte as `%` and two capital hexadecimal
  digits.  A space may be written as `+` instead.
* `decode` reads an escape with digits of either case, reads `+` as a space and
  passes every other byte through.  It fails at the first `%` which does not
  start an escape.

`decodeText` also asks that the decoded bytes are UTF-8.
-/

namespace StreamingHttp

namespace Percent

/-- How `encode` writes a space. -/
inductive SpaceStyle where
  /-- As `%20`. -/
  | escape
  /-- As `+`. -/
  | plus
  deriving DecidableEq, Repr

/-- Why a text is not percent-encoded. -/
inductive Fault where
  /-- Fewer than two bytes follow the `%` at this position. -/
  | truncated (position : Nat)
  /-- One of the two bytes after the `%` at this position is no hexadecimal
  digit. -/
  | invalidHex (position : Nat)
  /-- The decoded bytes are no UTF-8. -/
  | notUtf8 (decoded : Bytes) (cause : Utf8.Fault)
  deriving DecidableEq, Repr

/-- The wording of a fault. -/
def Fault.message : Fault → String
  | .truncated position => s!"truncated percent-escape at byte {position}"
  | .invalidHex position => s!"invalid percent-escape at byte {position}"
  | .notUtf8 _ cause => s!"unescaped value is not valid utf-8: {cause.message}"

/-- The bytes which stand for themselves in every part of a URL. -/
def isUnreserved (b : UInt8) : Bool :=
  Byte.isDigit b || Byte.isUpper b || Byte.isLower b
    || b == 0x2D || b == 0x5F || b == 0x2E || b == 0x7E

/-- The value of a hexadecimal digit of either case. -/
def hexValue? (b : UInt8) : Option UInt8 :=
  if Byte.isDigit b then some (b - 0x30)
  else if 0x61 ≤ b && b ≤ 0x66 then some (b - 0x61 + 10)
  else if 0x41 ≤ b && b ≤ 0x46 then some (b - 0x41 + 10)
  else none

/-- The capital hexadecimal digit of a value below 16. -/
def hexDigit (value : UInt8) : UInt8 :=
  if value < 10 then 0x30 + value else 0x37 + value

/-- One byte as it is written. -/
def encodeByte (style : SpaceStyle) (b : UInt8) : Bytes :=
  if isUnreserved b then [b]
  else if style = .plus ∧ b = Byte.space then [Byte.plus]
  else [Byte.percent, hexDigit (b / 16), hexDigit (b % 16)]

/-- Percent-encodes a byte string. -/
def encode (style : SpaceStyle) (data : Bytes) : Bytes :=
  data.flatMap (encodeByte style)

/-- Percent-encodes a byte string as text. -/
def encodeText (style : SpaceStyle) (data : Bytes) : String :=
  String.ofList (Bytes.asciiChars (encode style data))

/-- Appends a percent-encoded byte string to a text. -/
def appendEncoded (text : String) (style : SpaceStyle) (data : Bytes) : String :=
  text ++ encodeText style data

/-- Decodes bytes which stand at `position` of the whole text. -/
def decodeAt (position : Nat) : Bytes → Except Fault Bytes
  | [] => .ok []
  | b :: rest =>
      if b = Byte.percent then
        match rest with
        | high :: low :: after =>
            match hexValue? high, hexValue? low with
            | some h, some l =>
                (decodeAt (position + 3) after).map ((h * 16 + l) :: ·)
            | _, _ => .error (.invalidHex position)
        | _ => .error (.truncated position)
      else
        (decodeAt (position + 1) rest).map
          ((if b = Byte.plus then Byte.space else b) :: ·)

/-- Decodes a percent-encoded byte string. -/
def decode (text : Bytes) : Except Fault Bytes :=
  decodeAt 0 text

/-- Decodes into a buffer which is used again and again: whatever it held
before, it then holds the decoded bytes, and nothing after a fault. -/
def decodeInto (_buffer text : Bytes) : Except Fault Unit × Bytes :=
  match decode text with
  | .ok decoded => (.ok (), decoded)
  | .error fault => (.error fault, [])

/-- Decodes a percent-encoded text whose bytes are UTF-8. -/
def decodeText (text : List Char) : Except Fault String :=
  match decode (Utf8.encode text) with
  | .error fault => .error fault
  | .ok decoded =>
      match Utf8.decode decoded with
      | .ok chars => .ok (String.ofList chars)
      | .error cause => .error (.notUtf8 decoded cause)

end Percent

end StreamingHttp
