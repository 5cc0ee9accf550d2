import StreamingHttp.Text.Utf8

/-!
# Reading UTF-8 which was written as such

A character is written as one to four bytes.  The first of them promises the others, and
its bits and theirs together are the code point, so `next` reads the character back from
what `String.utf8EncodeChar` writes, whatever follows.  `decode` then inverts `encode`.

Bytes below 128 are the characters of these values, and nothing else is written with
such bytes.
-/

namespace StreamingHttp

namespace Utf8

@[simp] theorem encode_nil : encode [] = [] :=
  rfl

@[simp] theorem encode_cons (c : Char) (chars : List Char) :
    encode (c :: chars) = String.utf8EncodeChar c ++ encode chars :=
  rfl

@[simp] theorem encode_append (first second : List Char) :
    encode (first ++ second) = encode first ++ encode second :=
  List.flatMap_append

@[simp] theorem ofString_append (first second : String) :
    ofString (first ++ second) = ofString first ++ ofString second := by
  rw [ofString, String.toList_append, encode_append, ofString, ofString]

@[simp] theorem ofString_ofList (chars : List Char) :
    ofString (String.ofList chars) = encode chars := by
  rw [ofString, String.toList_ofList]

/-! ### One character -/

/-- A byte which was promised, written as six bits under a mark, adds these bits. -/
theorem readTails_mark {tails length bits value : Nat} {low high : UInt8}
    (hvalue : value < 64) (hlow : low.toNat ≤ value + 128)
    (hhigh : value + 128 ≤ high.toNat) (rest : Bytes) :
    readTails (tails + 1) low high length bits (UInt8.ofNat (value + 128) :: rest) =
      readTails tails 0x80 0xBF (length + 1) (64 * bits + value) rest := by
  have hbyte : (UInt8.ofNat (value + 128)).toNat = value + 128 := by
    rw [UInt8.toNat_ofNat']
    omega
  have hwithin : (low ≤ UInt8.ofNat (value + 128) && UInt8.ofNat (value + 128) ≤ high) =
      true := by
    simp only [UInt8.le_iff_toNat_le, hbyte, hlow, hhigh, decide_true, Bool.and_self]
  rw [readTails, if_pos hwithin, hbyte]
  congr 2
  omega

/-- A character of one byte. -/
theorem next_one {value : Nat} (h : value ≤ 127) (rest : Bytes) :
    next (UInt8.ofNat value) rest = .char (Char.ofNat value) rest := by
  have hbyte : (UInt8.ofNat value).toNat = value := by
    rw [UInt8.toNat_ofNat']
    omega
  have hlow : UInt8.ofNat value < 0x80 := by
    rw [UInt8.lt_iff_toNat_lt, hbyte]
    exact Nat.lt_succ_of_le h
  rw [next, if_pos hlow, hbyte]

/-- What the first byte of a longer character promises. -/
theorem next_of_lead {b : UInt8} {lead : Lead} (hb : 0x80 ≤ b)
    (hlead : lead? b = some lead) (rest : Bytes) :
    next b rest = readTails lead.tails lead.low lead.high 1 lead.bits rest := by
  rw [next, if_neg (by rwa [UInt8.not_lt]), hlead]

/-- The first byte of a character of two bytes. -/
theorem lead?_two {bits : Nat} (hlow : 2 ≤ bits) (hhigh : bits < 32) :
    lead? (UInt8.ofNat (bits + 192)) = some ⟨1, 0x80, 0xBF, bits⟩ := by
  have hall : ∀ bits < 32, 2 ≤ bits →
      lead? (UInt8.ofNat (bits + 192)) = some ⟨1, 0x80, 0xBF, bits⟩ := by decide
  exact hall bits hhigh hlow

/-- The first byte of a character of three bytes.  The next one is bounded so that
neither a shorter character nor a surrogate is written. -/
theorem lead?_three {bits : Nat} (h : bits < 16) :
    lead? (UInt8.ofNat (bits + 224)) =
      some ⟨2, if bits = 0 then 0xA0 else 0x80, if bits = 13 then 0x9F else 0xBF,
        bits⟩ := by
  have hall : ∀ bits < 16, lead? (UInt8.ofNat (bits + 224)) =
      some ⟨2, if bits = 0 then 0xA0 else 0x80, if bits = 13 then 0x9F else 0xBF,
        bits⟩ := by decide
  exact hall bits h

/-- The first byte of a character of four bytes.  The next one is bounded so that
neither a shorter character nor a value above U+10FFFF is written. -/
theorem lead?_four {bits : Nat} (h : bits < 5) :
    lead? (UInt8.ofNat (bits + 240)) =
      some ⟨3, if bits = 0 then 0x90 else 0x80, if bits = 4 then 0x8F else 0xBF,
        bits⟩ := by
  have hall : ∀ bits < 5, lead? (UInt8.ofNat (bits + 240)) =
      some ⟨3, if bits = 0 then 0x90 else 0x80, if bits = 4 then 0x8F else 0xBF,
        bits⟩ := by decide
  exact hall bits h

theorem le_ofNat_of_le {value : Nat} (hlow : 128 ≤ value) (hhigh : value < 256) :
    0x80 ≤ UInt8.ofNat value := by
  rw [UInt8.le_iff_toNat_le, UInt8.toNat_ofNat', Nat.mod_eq_of_lt hhigh]
  exact hlow

/-- A character of two bytes. -/
theorem next_two {value : Nat} (hlow : 128 ≤ value) (hhigh : value ≤ 2047)
    (rest : Bytes) :
    next (UInt8.ofNat (value / 64 % 32 + 192))
        (UInt8.ofNat (value % 64 + 128) :: rest) =
      .char (Char.ofNat value) rest := by
  rw [next_of_lead (le_ofNat_of_le (by omega) (by omega))
      (lead?_two (by omega) (by omega)),
    readTails_mark (by omega) (by simp) (by simp; omega), readTails]
  dsimp only
  congr 2
  omega

/-- A character of three bytes.  No surrogate is a character. -/
theorem next_three {value : Nat} (hlow : 2048 ≤ value) (hhigh : value ≤ 65535)
    (hscalar : value < 0xD800 ∨ 0xDFFF < value) (rest : Bytes) :
    next (UInt8.ofNat (value / 4096 % 16 + 224))
        (UInt8.ofNat (value / 64 % 64 + 128) :: UInt8.ofNat (value % 64 + 128) ::
          rest) =
      .char (Char.ofNat value) rest := by
  rw [next_of_lead (le_ofNat_of_le (by omega) (by omega)) (lead?_three (by omega)),
    readTails_mark (by omega) (by dsimp only; split <;> simp; omega)
      (by dsimp only; split <;> simp <;> omega),
    readTails_mark (by omega) (by simp) (by simp; omega), readTails]
  dsimp only
  congr 2
  omega

/-- A character of four bytes. -/
theorem next_four {value : Nat} (hlow : 65536 ≤ value) (hhigh : value < 0x110000)
    (rest : Bytes) :
    next (UInt8.ofNat (value / 262144 % 8 + 240))
        (UInt8.ofNat (value / 4096 % 64 + 128) :: UInt8.ofNat (value / 64 % 64 + 128) ::
          UInt8.ofNat (value % 64 + 128) :: rest) =
      .char (Char.ofNat value) rest := by
  rw [next_of_lead (le_ofNat_of_le (by omega) (by omega)) (lead?_four (by omega)),
    readTails_mark (by omega) (by dsimp only; split <;> simp; omega)
      (by dsimp only; split <;> simp <;> omega),
    readTails_mark (by omega) (by simp) (by simp; omega),
    readTails_mark (by omega) (by simp) (by simp; omega), readTails]
  dsimp only
  congr 2
  omega

/-- Whatever follows a character, it is read back. -/
theorem exists_encodeChar_eq_cons (c : Char) :
    ∃ b tails, String.utf8EncodeChar c = b :: tails ∧
      ∀ rest, next b (tails ++ rest) = .char c rest := by
  have hvalid : c.toNat < 0xD800 ∨ 0xDFFF < c.toNat ∧ c.toNat < 0x110000 := c.valid
  have hchar : Char.ofNat c.toNat = c := Char.ofNat_toNat c
  rw [String.utf8EncodeChar.eq_1]
  simp only [Char.toNat_val]
  generalize c.toNat = value at hvalid hchar
  subst hchar
  -- As many cases as there are lengths.
  split
  · next hone => exact ⟨_, [], rfl, next_one hone⟩
  split
  · exact ⟨_, [_], rfl, next_two (by omega) (by omega)⟩
  split
  · exact ⟨_, [_, _], rfl, next_three (by omega) (by omega) (by omega)⟩
  · exact ⟨_, [_, _, _], rfl, next_four (by omega) (by omega)⟩

/-! ### Texts -/

/-- Decoding inverts encoding. -/
theorem decodeWithin_encode (total : Nat) (chars : List Char) :
    decodeWithin total (encode chars) = .ok chars := by
  induction chars with
  | nil =>
      rw [encode_nil, decodeWithin]
  | cons c chars ih =>
      obtain ⟨b, tails, hencode, hnext⟩ := exists_encodeChar_eq_cons c
      rw [encode_cons, hencode, List.cons_append, decodeWithin]
      split
      · next hread =>
          rw [hnext] at hread
          cases hread
          rw [ih]
          rfl
      · next hread =>
          rw [hnext] at hread
          cases hread
      · next hread =>
          rw [hnext] at hread
          cases hread

theorem decode_encode (chars : List Char) : decode (encode chars) = .ok chars :=
  decodeWithin_encode _ chars

theorem encode_injective : Function.Injective encode := by
  intro first second heq
  have hdecoded := decode_encode first
  rw [heq, decode_encode] at hdecoded
  exact (Except.ok.inj hdecoded).symm

theorem ofString_injective : Function.Injective ofString :=
  fun _ _ heq => String.toList_inj.mp (encode_injective heq)

/-! ### Bytes below 128 -/

/-- A byte below 128 is the character of its value. -/
theorem encodeChar_ofNat {b : UInt8} (hb : b < 0x80) :
    String.utf8EncodeChar (Char.ofNat b.toNat) = [b] := by
  have hvalue : b.toNat < 128 := UInt8.lt_iff_toNat_lt.mp hb
  have hall : ∀ value < 128, (Char.ofNat value).toNat = value := by decide
  have hchar := hall b.toNat hvalue
  rw [String.utf8EncodeChar.eq_1]
  simp only [Char.toNat_val, hchar]
  rw [if_pos (by omega), UInt8.ofNat_toNat]

/-- The bytes of a longer character are all above. -/
theorem le_of_mem_encodeChar {c : Char} (hc : 128 ≤ c.toNat) :
    ∀ b ∈ String.utf8EncodeChar c, 0x80 ≤ b := by
  have hmax : c.toNat < 0x110000 := by
    rcases c.valid with hlow | hhigh
    · exact Nat.lt_trans hlow (by decide)
    · exact hhigh.2
  intro b hb
  rw [String.utf8EncodeChar.eq_1] at hb
  simp only [Char.toNat_val] at hb
  rw [if_neg (by omega)] at hb
  obtain ⟨value, rfl, hlow, hhigh⟩ :
      ∃ value, b = UInt8.ofNat value ∧ 128 ≤ value ∧ value < 256 := by
    split at hb
    · simp only [List.mem_cons, List.not_mem_nil, or_false] at hb
      rcases hb with rfl | rfl <;> exact ⟨_, rfl, by omega, by omega⟩
    split at hb
    · simp only [List.mem_cons, List.not_mem_nil, or_false] at hb
      rcases hb with rfl | rfl | rfl <;> exact ⟨_, rfl, by omega, by omega⟩
    · simp only [List.mem_cons, List.not_mem_nil, or_false] at hb
      rcases hb with rfl | rfl | rfl | rfl <;> exact ⟨_, rfl, by omega, by omega⟩
  exact le_ofNat_of_le hlow hhigh

/-- No other character is written with a byte below 128. -/
theorem eq_of_mem_encodeChar {b : UInt8} (hb : b < 0x80) {c : Char}
    (h : b ∈ String.utf8EncodeChar c) : c = Char.ofNat b.toNat := by
  by_cases hc : 128 ≤ c.toNat
  · exact absurd hb (UInt8.not_lt.mpr (le_of_mem_encodeChar hc b h))
  · rw [String.utf8EncodeChar.eq_1] at h
    simp only [Char.toNat_val] at h
    rw [if_pos (by omega), List.mem_singleton] at h
    rw [h, UInt8.toNat_ofNat', Nat.mod_eq_of_lt (by omega), Char.ofNat_toNat]

/-- A byte below 128 is in a text if and only if the character of its value is. -/
theorem mem_encode_iff {b : UInt8} (hb : b < 0x80) {chars : List Char} :
    b ∈ encode chars ↔ Char.ofNat b.toNat ∈ chars := by
  rw [encode, List.mem_flatMap]
  constructor
  · rintro ⟨c, hc, hmem⟩
    rwa [← eq_of_mem_encodeChar hb hmem]
  · intro hmem
    exact ⟨_, hmem, by rw [encodeChar_ofNat hb]; exact List.mem_singleton_self b⟩

/-- A byte below 128 starts a text only as a character. -/
theorem mem_head?_of_encode {b : UInt8} (hb : b < 0x80) {chars : List Char}
    (h : b ∈ (encode chars).head?) : Char.ofNat b.toNat ∈ chars.head? := by
  cases chars with
  | nil => cases h
  | cons c chars =>
      obtain ⟨first, tails, hencode, -⟩ := exists_encodeChar_eq_cons c
      rw [encode_cons, hencode, List.cons_append, List.head?_cons, Option.mem_some_iff] at h
      have hmem : b ∈ String.utf8EncodeChar c := by
        rw [hencode, h]
        exact List.mem_cons_self
      rw [List.head?_cons, Option.mem_some_iff, eq_of_mem_encodeChar hb hmem]

/-- A byte below 128 ends a text only as a character. -/
theorem mem_getLast?_of_encode {b : UInt8} (hb : b < 0x80) {chars : List Char}
    (h : b ∈ (encode chars).getLast?) : Char.ofNat b.toNat ∈ chars.getLast? := by
  cases hchars : chars.getLast? with
  | none =>
      rw [List.getLast?_eq_none_iff.mp hchars] at h
      cases h
  | some c =>
      obtain ⟨front, rfl⟩ := List.getLast?_eq_some_iff.mp hchars
      obtain ⟨first, tails, hencode, -⟩ := exists_encodeChar_eq_cons c
      have hne : String.utf8EncodeChar c ≠ [] := by
        rw [hencode]
        exact List.cons_ne_nil _ _
      rw [encode_append, encode_cons, encode_nil, List.append_nil,
        List.getLast?_append, List.getLast?_eq_some_getLast hne, Option.some_or,
        Option.mem_some_iff] at h
      have hmem : b ∈ String.utf8EncodeChar c := by
        rw [← h]
        exact List.getLast_mem hne
      rw [Option.mem_some_iff, eq_of_mem_encodeChar hb hmem]

/-- Bytes below 128 are the UTF-8 of the characters which they stand for. -/
theorem encode_asciiChars {bytes : Bytes} (h : ∀ b ∈ bytes, b < 0x80) :
    encode (Bytes.asciiChars bytes) = bytes := by
  induction bytes with
  | nil => rfl
  | cons b bytes ih =>
      rw [Bytes.asciiChars, List.map_cons, encode_cons,
        encodeChar_ofNat (h b List.mem_cons_self)]
      have hlater := ih fun other hother => h other (List.mem_cons_of_mem b hother)
      rw [Bytes.asciiChars] at hlater
      rw [hlater]
      rfl

end Utf8

end StreamingHttp
