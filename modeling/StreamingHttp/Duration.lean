/-!
# Durations

A duration is a number of nanoseconds, kept as seconds and the nanoseconds
beyond them.  It is shown in the largest unit of which it has at least one,
among `s`, `ms`, `µs` and `ns`, as an exact decimal fraction without trailing
zeros.
-/

namespace StreamingHttp

/-- A time span. -/
structure Duration where
  seconds : Nat
  nanoseconds : Nat
  nanoseconds_lt : nanoseconds < 1000000000
  deriving DecidableEq, Repr

namespace Duration

/-- A duration of seconds and nanoseconds.  Nanoseconds which make up whole
seconds count as such. -/
def of (seconds nanoseconds : Nat) : Duration where
  seconds := seconds + nanoseconds / 1000000000
  nanoseconds := nanoseconds % 1000000000
  nanoseconds_lt := Nat.mod_lt _ (by decide)

/-- A duration of whole seconds. -/
def ofSeconds (seconds : Nat) : Duration :=
  of seconds 0

/-- The digits of `part`, padded with zeros to a number of decimal places, after
a point.  Trailing zeros are left out, and a point before nothing as well. -/
def placesText (places part : Nat) : String :=
  let digits := Nat.toDigits 10 part
  let padded := List.replicate (places - digits.length) '0' ++ digits
  let kept := (padded.reverse.dropWhile (· == '0')).reverse
  if kept.isEmpty then "" else "." ++ String.ofList kept

/-- A number of units and a part of one, given to a number of decimal places. -/
def unitText (unit : String) (places count part : Nat) : String :=
  toString count ++ placesText places part ++ unit

/-- A duration as it is shown. -/
def text (duration : Duration) : String :=
  let ns := duration.nanoseconds
  if 0 < duration.seconds then unitText "s" 9 duration.seconds ns
  else if 1000000 ≤ ns then unitText "ms" 6 (ns / 1000000) (ns % 1000000)
  else if 1000 ≤ ns then unitText "µs" 3 (ns / 1000) (ns % 1000)
  else unitText "ns" 0 ns 0

end Duration

end StreamingHttp
