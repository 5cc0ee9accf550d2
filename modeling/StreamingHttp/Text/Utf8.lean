import StreamingHttp.Bytes

/-!
# UTF-8

`encode` writes characters as UTF-8.  `next` reads one character from the front
of a byte string, and says why it cannot:

* the bytes do not start a character: the length of the longest part which is
  the start of one (at least one byte) is reported, and reading may go on after
  that part;
* the bytes end in the middle of a character.

Two readers are built on it.  `decode` stops at the first fault and reports
where it is.  `decodeLossy` puts U+FFFD in the place of each faulty part.
Overlong forms, surrogates and values above U+10FFFF are faulty at the first
byte which rules the character out.
-/

namespace StreamingHttp

namespace Utf8

/-- Characters as UTF-8. -/
def encode (chars : List Char) : Bytes :=
  chars.flatMap String.utf8EncodeChar

/-- A string as UTF-8. -/
def ofString (text : String) : Bytes :=
  encode text.toList

/-- What the first byte of a longer character promises: the number of bytes
which follow, the bounds of the first of those, and the leading bits of the
code point. -/
structure Lead where
  tails : Nat
  low : UInt8
  high : UInt8
  bits : Nat
  deriving DecidableEq, Repr

/-- Reads a first byte.  `none` stands for a byte which starts no character of
more than one byte. -/
def lead? (b : UInt8) : Option Lead :=
  if b < 0xC2 then none
  else if b < 0xE0 then some ⟨1, 0x80, 0xBF, b.toNat % 32⟩
  else if b = 0xE0 then some ⟨2, 0xA0, 0xBF, 0⟩
  else if b = 0xED then some ⟨2, 0x80, 0x9F, 13⟩
  else if b < 0xF0 then some ⟨2, 0x80, 0xBF, b.toNat % 16⟩
  else if b = 0xF0 then some ⟨3, 0x90, 0xBF, 0⟩
  else if b < 0xF4 then some ⟨3, 0x80, 0xBF, b.toNat % 8⟩
  else if b = 0xF4 then some ⟨3, 0x80, 0x8F, 4⟩
  else none

/-- What stands at the front of a byte string. -/
inductive Front where
  /-- A character, with the bytes after it. -/
  | char (c : Char) (rest : Bytes)
  /-- Bytes which no character starts with: how many, and the bytes after. -/
  | invalid (length : Nat) (rest : Bytes)
  /-- The start of a character, cut short by the end of the bytes. -/
  | incomplete

/-- Reads the bytes which a first byte promises.  `length` counts the bytes of
the character read so far and `bits` holds their bits. -/
def readTails :
    (tails : Nat) → (low high : UInt8) → (length bits : Nat) → Bytes → Front
  | 0, _, _, _, bits, rest => .char (Char.ofNat bits) rest
  | _ + 1, _, _, _, _, [] => .incomplete
  | tails + 1, low, high, length, bits, b :: rest =>
      if low ≤ b && b ≤ high then
        readTails tails 0x80 0xBF (length + 1) (64 * bits + b.toNat % 64) rest
      else
        .invalid length (b :: rest)

/-- Reads one character from a byte and what follows it. -/
def next (b : UInt8) (rest : Bytes) : Front :=
  if b < 0x80 then .char (Char.ofNat b.toNat) rest
  else
    match lead? b with
    | none => .invalid 1 rest
    | some lead => readTails lead.tails lead.low lead.high 1 lead.bits rest

theorem length_rest_le_of_readTails_char {tails : Nat} {low high : UInt8}
    {length bits : Nat} {bytes : Bytes} {c : Char} {rest : Bytes}
    (h : readTails tails low high length bits bytes = .char c rest) :
    rest.length ≤ bytes.length := by
  induction tails generalizing low high length bits bytes with
  | zero =>
      simp only [readTails, Front.char.injEq] at h
      exact Nat.le_of_eq (congrArg List.length h.2.symm)
  | succ tails ih =>
      cases bytes with
      | nil => simp [readTails] at h
      | cons b bytes =>
          simp only [readTails] at h
          split at h
          · have := ih h
            simp only [List.length_cons]
            omega
          · cases h

theorem length_rest_le_of_readTails_invalid {tails : Nat} {low high : UInt8}
    {length bits : Nat} {bytes : Bytes} {n : Nat} {rest : Bytes}
    (h : readTails tails low high length bits bytes = .invalid n rest) :
    rest.length ≤ bytes.length := by
  induction tails generalizing low high length bits bytes with
  | zero => simp [readTails] at h
  | succ tails ih =>
      cases bytes with
      | nil => simp [readTails] at h
      | cons b bytes =>
          simp only [readTails] at h
          split at h
          · have := ih h
            simp only [List.length_cons]
            omega
          · simp only [Front.invalid.injEq] at h
            exact Nat.le_of_eq (congrArg List.length h.2.symm)

/-- Reading a character consumes its first byte at least. -/
theorem length_rest_le_of_next_char {b : UInt8} {bytes rest : Bytes} {c : Char}
    (h : next b bytes = .char c rest) : rest.length ≤ bytes.length := by
  unfold next at h
  split at h
  · simp only [Front.char.injEq] at h
    exact Nat.le_of_eq (congrArg List.length h.2.symm)
  · split at h
    · cases h
    · exact length_rest_le_of_readTails_char h

/-- Skipping a faulty part consumes one byte at least. -/
theorem length_rest_le_of_next_invalid {b : UInt8} {bytes rest : Bytes}
    {n : Nat} (h : next b bytes = .invalid n rest) :
    rest.length ≤ bytes.length := by
  unfold next at h
  split at h
  · cases h
  · split at h
    · simp only [Front.invalid.injEq] at h
      exact Nat.le_of_eq (congrArg List.length h.2.symm)
    · exact length_rest_le_of_readTails_invalid h

/-- Why bytes are no UTF-8. -/
structure Fault where
  /-- How many bytes before the fault are UTF-8. -/
  validUpTo : Nat
  /-- The length of the faulty part; `none` if the bytes end in the middle of a
  character. -/
  length : Option Nat
  deriving DecidableEq, Repr

/-- Reads what is left of a byte string of `total` bytes. -/
def decodeWithin (total : Nat) : Bytes → Except Fault (List Char)
  | [] => .ok []
  | b :: bytes =>
      match h : next b bytes with
      | .char c rest =>
          have := length_rest_le_of_next_char h
          (decodeWithin total rest).map (c :: ·)
      | .invalid length _ =>
          .error ⟨total - (b :: bytes).length, some length⟩
      | .incomplete => .error ⟨total - (b :: bytes).length, none⟩
termination_by bytes => bytes.length

/-- The characters of a byte string, or its first fault. -/
def decode (bytes : Bytes) : Except Fault (List Char) :=
  decodeWithin bytes.length bytes

/-- The characters of a byte string, with U+FFFD for each faulty part. -/
def decodeLossy : Bytes → List Char
  | [] => []
  | b :: bytes =>
      match h : next b bytes with
      | .char c rest =>
          have := length_rest_le_of_next_char h
          c :: decodeLossy rest
      | .invalid _ rest =>
          have := length_rest_le_of_next_invalid h
          '\uFFFD' :: decodeLossy rest
      | .incomplete => ['\uFFFD']
termination_by bytes => bytes.length

/-- The text of a byte string, with U+FFFD for each faulty part. -/
def lossy (bytes : Bytes) : String :=
  String.ofList (decodeLossy bytes)

/-- Says where the bytes stop being UTF-8. -/
def Fault.message (fault : Fault) : String :=
  match fault.length with
  | some length =>
      s!"invalid utf-8 sequence of {length} bytes from index {fault.validUpTo}"
  | none =>
      s!"incomplete utf-8 byte sequence from index {fault.validUpTo}"

end Utf8

end StreamingHttp
