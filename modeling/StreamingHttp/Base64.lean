import StreamingHttp.Text.Utf8

/-!
# Base64

The standard alphabet with padding.  Three bytes are 24 bits, written as four
symbols of six bits each.  A last group of one or two bytes is filled up with
zero bits and its unused symbols are written as `=`.
-/

namespace StreamingHttp

namespace Base64

/-- The 64 symbols, by value. -/
def alphabet : List Char :=
  "ABCDEFGHIJKLMNOPQRSTUVWXYZabcdefghijklmnopqrstuvwxyz0123456789+/".toList

/-- Stands in the place of a symbol which carries no bits. -/
abbrev padding : Char := '='

/-- The symbol of the lowest six bits. -/
def symbol (bits : Nat) : Char :=
  alphabet.getD (bits % 64) padding

/-- The 24 bits of three bytes. -/
def group (a b c : UInt8) : Nat :=
  a.toNat * 65536 + b.toNat * 256 + c.toNat

/-- The symbols of a byte string. -/
def encodeChars : Bytes → List Char
  | [] => []
  | [a] =>
      let bits := group a 0 0
      [symbol (bits / 262144), symbol (bits / 4096), padding, padding]
  | [a, b] =>
      let bits := group a b 0
      [symbol (bits / 262144), symbol (bits / 4096), symbol (bits / 64), padding]
  | a :: b :: c :: rest =>
      let bits := group a b c
      symbol (bits / 262144) :: symbol (bits / 4096) :: symbol (bits / 64)
        :: symbol bits :: encodeChars rest

/-- Writes a byte string in base64. -/
def encode (data : Bytes) : String :=
  String.ofList (encodeChars data)

/-- The credentials of the Basic authentication scheme: user and password,
divided by a colon, in base64. -/
def basicCredentials (user password : String) : String :=
  encode (Utf8.ofString user ++ Byte.colon :: Utf8.ofString password)

end Base64

end StreamingHttp
