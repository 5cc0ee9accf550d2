import StreamingHttp.Bytes

/-!
# Bounded decimal numerals

A numeral is a non-empty string of decimal digits with any number of leading
zeros.  It is read from left to right under a bound, and refused as soon as the
digits read so far reach the bound: a longer numeral only grows.
-/

namespace StreamingHttp

namespace Decimal

/-- The value of a decimal digit. -/
def digit? (b : UInt8) : Option Nat :=
  if Byte.isDigit b then some (b.toNat - 0x30) else none

/-- Appends one digit to the value of a numeral, unless that reaches the
bound. -/
def appendDigit? (bound value : Nat) (b : UInt8) : Option Nat :=
  match digit? b with
  | none => none
  | some digit =>
      let next := 10 * value + digit
      if next < bound then some next else none

/-- The value of a numeral below the bound. -/
def read? (bound : Nat) (digits : Bytes) : Option Nat :=
  if digits.isEmpty then none
  else digits.foldlM (appendDigit? bound) 0

end Decimal

end StreamingHttp
