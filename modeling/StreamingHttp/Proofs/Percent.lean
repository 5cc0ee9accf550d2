import StreamingHttp.Proofs.Percent.Tokens
import StreamingHttp.Proofs.Text.Utf8RoundTrip

/-!
# What percent-encoding writes is read back

Each byte is written as one token which means it: an escape holds the two digits of its
byte.  So decoding inverts encoding, in either style of spaces; a plus sign which stands for
itself is written as an escape.

An encoded text holds unreserved bytes, percent signs and plus signs only.  So it holds
no byte which divides the parts of a URL.
-/

namespace StreamingHttp

namespace Percent

/-! ### The tokens which are written -/

theorem capitalDigits_getElem? {value : UInt8} (h : value < 16) :
    capitalDigits[value.toNat]? = some (hexDigit value) := by
  have hall : ∀ value < 16, capitalDigits[(UInt8.ofNat value).toNat]? =
      some (hexDigit (UInt8.ofNat value)) := by decide
  exact Byte.of_forall_lt
    (p := fun value => capitalDigits[value.toNat]? = some (hexDigit value))
    hall (UInt8.lt_iff_toNat_lt.mp h)

/-- The capital digit of a value. -/
def HexDigit.capital (value : UInt8) (h : value < 16) : HexDigit where
  byte := hexDigit value
  value := value.toNat
  isDigitOf := .inr (capitalDigits_getElem? h)

/-- A byte is made of its two digits. -/
theorem digits_eq (b : UInt8) :
    UInt8.ofNat (16 * (b / 16).toNat + (b % 16).toNat) = b := by
  have hsplit : 16 * (b / 16).toNat + (b % 16).toNat = b.toNat := Nat.div_add_mod b.toNat 16
  rw [hsplit, UInt8.ofNat_toNat]

theorem div_lt (b : UInt8) : b / 16 < 16 := by
  have hbound := b.toNat_lt
  simp only [UInt8.lt_iff_toNat_lt, UInt8.toNat_div, UInt8.reduceToNat]
  omega

theorem mod_lt (b : UInt8) : b % 16 < 16 := by
  simp only [UInt8.lt_iff_toNat_lt, UInt8.toNat_mod, UInt8.reduceToNat]
  omega

theorem ne_percent_of_isUnreserved {b : UInt8} (h : isUnreserved b = true) :
    b ≠ Byte.percent := by
  rintro rfl
  exact absurd h (by decide)

theorem ne_plus_of_isUnreserved {b : UInt8} (h : isUnreserved b = true) : b ≠ Byte.plus := by
  rintro rfl
  exact absurd h (by decide)

/-- The token which a byte is written as. -/
def Token.ofByte (style : SpaceStyle) (b : UInt8) : Token :=
  if h : isUnreserved b then .byte b (ne_percent_of_isUnreserved h)
  else if style = .plus ∧ b = Byte.space then .byte Byte.plus (by decide)
  else .escape (.capital (b / 16) (div_lt b)) (.capital (b % 16) (mod_lt b))

theorem Token.text_ofByte (style : SpaceStyle) (b : UInt8) :
    (Token.ofByte style b).text = encodeByte style b := by
  unfold ofByte encodeByte
  split
  · rfl
  split <;> rfl

theorem Token.value_ofByte (style : SpaceStyle) (b : UInt8) :
    (Token.ofByte style b).value = b := by
  unfold ofByte
  split
  · next hplain => exact if_neg (ne_plus_of_isUnreserved hplain)
  split
  · next hspace => exact hspace.2.symm
  · exact digits_eq b

theorem spell_map_ofByte (style : SpaceStyle) (data : Bytes) :
    spell (data.map (Token.ofByte style)) = encode style data := by
  rw [spell, List.flatMap_map, encode]
  simp only [Token.text_ofByte]

theorem map_value_map_ofByte (style : SpaceStyle) (data : Bytes) :
    (data.map (Token.ofByte style)).map Token.value = data := by
  have hid : Token.value ∘ Token.ofByte style = id := funext (Token.value_ofByte style)
  rw [List.map_map, hid, List.map_id]

/-- Decoding inverts encoding. -/
theorem decode_encode (style : SpaceStyle) (data : Bytes) :
    decode (encode style data) = .ok data :=
  decode_eq_ok_iff.mpr ⟨_, spell_map_ofByte style data, map_value_map_ofByte style data⟩

/-! ### What an encoded text holds -/

theorem isUnreserved_hexDigit {value : UInt8} (h : value < 16) :
    isUnreserved (hexDigit value) = true := by
  have hall : ∀ value < 16, isUnreserved (hexDigit (UInt8.ofNat value)) = true := by decide
  exact Byte.of_forall_lt (p := fun value => isUnreserved (hexDigit value) = true) hall
    (UInt8.lt_iff_toNat_lt.mp h)

/-- A plus sign occurs only if spaces are written as such. -/
theorem of_mem_encode {style : SpaceStyle} {data : Bytes} {b : UInt8}
    (h : b ∈ encode style data) :
    isUnreserved b = true ∨ b = Byte.percent ∨ b = Byte.plus ∧ style = .plus := by
  obtain ⟨source, -, hmem⟩ := List.mem_flatMap.mp h
  unfold encodeByte at hmem
  split at hmem
  · next hplain =>
      rw [List.mem_singleton] at hmem
      exact .inl (hmem ▸ hplain)
  split at hmem
  · next hspace =>
      rw [List.mem_singleton] at hmem
      exact .inr (.inr ⟨hmem, hspace.1⟩)
  · simp only [List.mem_cons, List.not_mem_nil, or_false] at hmem
    rcases hmem with rfl | rfl | rfl
    · exact .inr (.inl rfl)
    · exact .inl (isUnreserved_hexDigit (div_lt source))
    · exact .inl (isUnreserved_hexDigit (mod_lt source))

/-- The bytes which occur in encoded texts. -/
def isEncoded (b : UInt8) : Bool :=
  isUnreserved b || b == Byte.percent || b == Byte.plus

theorem isEncoded_of_mem_encode {style : SpaceStyle} {data : Bytes} :
    ∀ b ∈ encode style data, isEncoded b = true := by
  intro b hb
  rcases of_mem_encode hb with h | rfl | ⟨rfl, -⟩
  · rw [isEncoded, h]
    rfl
  · rfl
  · rfl

theorem lt_of_isEncoded {b : UInt8} (h : isEncoded b = true) : b < 0x80 := by
  have hall : ∀ value < 256, isEncoded (UInt8.ofNat value) = true →
      UInt8.ofNat value < 0x80 := by decide +kernel
  exact Byte.of_forall_lt (p := fun b => isEncoded b = true → b < 0x80) hall b.toNat_lt h

/-- The UTF-8 of an encoded text is what was encoded. -/
@[simp] theorem ofString_encodeText (style : SpaceStyle) (data : Bytes) :
    Utf8.ofString (encodeText style data) = encode style data := by
  rw [encodeText, Utf8.ofString_ofList, Utf8.encode_asciiChars]
  exact fun b hb => lt_of_isEncoded (isEncoded_of_mem_encode b hb)

/-- An encoded text holds no other ASCII characters. -/
theorem notMem_encodeText {b : UInt8} (hb : b < 0x80) (h : isEncoded b = false)
    (style : SpaceStyle) (data : Bytes) :
    Char.ofNat b.toNat ∉ (encodeText style data).toList := by
  rw [← Utf8.mem_encode_iff hb, ← Utf8.ofString, ofString_encodeText]
  intro hmem
  rw [isEncoded_of_mem_encode b hmem] at h
  cases h

/-- A text is read back from its percent-encoded UTF-8. -/
theorem decodeText_encodeText (style : SpaceStyle) (text : String) :
    decodeText (encodeText style (Utf8.ofString text)).toList = .ok text := by
  have hbytes := ofString_encodeText style (Utf8.ofString text)
  rw [Utf8.ofString] at hbytes
  rw [decodeText, hbytes, decode_encode]
  dsimp only
  rw [Utf8.ofString, Utf8.decode_encode]
  dsimp only
  rw [String.ofList_toList]

end Percent

end StreamingHttp
