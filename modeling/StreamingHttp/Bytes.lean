/-!
# Byte strings

A byte string is a list of bytes, oldest byte first.  This module names the
bytes which HTTP/1.x gives a meaning to, and the classes of bytes which the
parsers trim:

* *blanks* are space and horizontal tab; they may start a folded line;
* *line ends* are carriage return and line feed;
* *white space* is ASCII white space without the vertical tab.

Trimming takes the class as an argument, because the line-oriented parsers trim
blanks where the value parsers trim all white space.
-/

namespace StreamingHttp

/-- A byte string, oldest byte first. -/
abbrev Bytes := List UInt8

namespace Byte

/-- Horizontal tab. -/
abbrev tab : UInt8 := 0x09

/-- Line feed, which ends every line. -/
abbrev lf : UInt8 := 0x0A

/-- Form feed. -/
abbrev ff : UInt8 := 0x0C

/-- Carriage return, which may precede a line feed. -/
abbrev cr : UInt8 := 0x0D

/-- Space. -/
abbrev space : UInt8 := 0x20

/-- Double quote. -/
abbrev quote : UInt8 := 0x22

/-- Percent sign. -/
abbrev percent : UInt8 := 0x25

/-- Plus sign. -/
abbrev plus : UInt8 := 0x2B

/-- Hyphen, written twice before a boundary. -/
abbrev dash : UInt8 := 0x2D

/-- Colon, which ends a field name. -/
abbrev colon : UInt8 := 0x3A

/-- Semicolon, which separates the parameters of a media type. -/
abbrev semicolon : UInt8 := 0x3B

/-- Equals sign, which separates the name of a parameter from its value. -/
abbrev equals : UInt8 := 0x3D

/-- Delete, the one control byte above the space. -/
abbrev delete : UInt8 := 0x7F

/-- Space and horizontal tab. -/
def isBlank (b : UInt8) : Bool :=
  b == space || b == tab

/-- Carriage return and line feed. -/
def isLineEnd (b : UInt8) : Bool :=
  b == cr || b == lf

/-- ASCII white space without the vertical tab. -/
def isSpace (b : UInt8) : Bool :=
  isBlank b || isLineEnd b || b == ff

/-- The decimal digits. -/
def isDigit (b : UInt8) : Bool :=
  0x30 ≤ b && b ≤ 0x39

/-- The letters `A` to `Z`. -/
def isUpper (b : UInt8) : Bool :=
  0x41 ≤ b && b ≤ 0x5A

/-- The letters `a` to `z`. -/
def isLower (b : UInt8) : Bool :=
  0x61 ≤ b && b ≤ 0x7A

/-- An ASCII capital as its small letter, any other byte as itself. -/
def toLower (b : UInt8) : UInt8 :=
  if isUpper b then b + 0x20 else b

end Byte

namespace Bytes

/-- Drops the members of a class from the end. -/
def trimEnd (p : UInt8 → Bool) (bytes : Bytes) : Bytes :=
  (bytes.reverse.dropWhile p).reverse

/-- Drops the members of a class from both ends. -/
def trim (p : UInt8 → Bool) (bytes : Bytes) : Bytes :=
  (trimEnd p bytes).dropWhile p

/-- Equality up to the case of ASCII letters. -/
def sameIgnoringCase (a b : Bytes) : Bool :=
  a.map Byte.toLower == b.map Byte.toLower

/-- Bytes below 128 as the characters which they encode. -/
def asciiChars (bytes : Bytes) : List Char :=
  bytes.map fun b => Char.ofNat b.toNat

/-- Cuts off the first line, its line feed included.  `none` stands for bytes
without a line feed. -/
def splitLine? (bytes : Bytes) : Option (Bytes × Bytes) :=
  match bytes.dropWhile (· != Byte.lf) with
  | [] => none
  | lf :: rest => some (bytes.takeWhile (· != Byte.lf) ++ [lf], rest)

/-- Nothing is lost between the line and the rest. -/
theorem append_eq_of_splitLine? {bytes line rest : Bytes}
    (h : splitLine? bytes = some (line, rest)) : line ++ rest = bytes := by
  have split := List.takeWhile_append_dropWhile
    (p := fun b => b != Byte.lf) (l := bytes)
  unfold splitLine? at h
  split at h
  · cases h
  · next lf after hdrop =>
      cases h
      rw [hdrop] at split
      simpa using split

theorem ne_nil_of_splitLine? {bytes line rest : Bytes}
    (h : splitLine? bytes = some (line, rest)) : line ≠ [] := by
  unfold splitLine? at h
  split at h
  · cases h
  · cases h
    simp

end Bytes

end StreamingHttp
