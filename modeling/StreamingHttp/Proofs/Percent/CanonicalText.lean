import StreamingHttp.Proofs.Percent

/-!
# Canonical percent-encoded texts

Many texts are decoded to the same bytes, and one of them is written.  A text is *canonical*
for a style of spaces if each of its tokens is the one which is written for its byte:

* an unreserved byte stands for itself;
* a plus sign stands for a space if spaces are written as such;
* every other byte is an escape with capital digits.

Writing what was read of a text gives the text back if and only if it is canonical.  A token
decides this alone (`text_eq_encodeByte`), because tokens are read one by one.
-/

namespace StreamingHttp

namespace Percent

/-! ### Characters which are written -/

/-- The unreserved characters: a letter, a digit, or one of four others. -/
def StandsForItself (c : Char) : Prop :=
  c.isAlphanum = true ∨ c ∈ ['-', '_', '.', '~']

instance (c : Char) : Decidable (StandsForItself c) :=
  inferInstanceAs (Decidable (_ ∨ _))

theorem isUnreserved_iff {b : UInt8} :
    isUnreserved b = true ↔ StandsForItself (Char.ofNat b.toNat) := by
  have hall : ∀ value < 256, (isUnreserved (UInt8.ofNat value) = true ↔
      StandsForItself (Char.ofNat (UInt8.ofNat value).toNat)) := by
    decide +kernel
  exact Byte.of_forall_lt
    (p := fun b => isUnreserved b = true ↔ StandsForItself (Char.ofNat b.toNat))
    hall b.toNat_lt

/-- The characters which divide the parts of a URL, but for the plus sign. -/
def delimiters : List Char :=
  [':', '/', '?', '#', '[', ']', '@', '!', '$', '&', '\'', '(', ')', '*', ',', ';', '=']

/-- A character which neither divides a URL nor ends a word of a line. -/
def IsPlain (c : Char) : Prop :=
  c ∉ delimiters ∧ ' ' < c ∧ c < '\x7F'

instance (c : Char) : Decidable (IsPlain c) :=
  inferInstanceAs (Decidable (_ ∧ _))

theorem isPlain_of_isEncoded {b : UInt8} (h : isEncoded b = true) :
    IsPlain (Char.ofNat b.toNat) := by
  have hall : ∀ value < 256, isEncoded (UInt8.ofNat value) = true →
      IsPlain (Char.ofNat (UInt8.ofNat value).toNat) := by
    decide +kernel
  exact Byte.of_forall_lt (p := fun b => isEncoded b = true → IsPlain (Char.ofNat b.toNat))
    hall b.toNat_lt h

/-- What an encoded text is made of. -/
theorem of_mem_encodeText {style : SpaceStyle} {data : Bytes} {c : Char}
    (h : c ∈ (encodeText style data).toList) :
    (StandsForItself c ∨ c = '%' ∨ c = '+' ∧ style = .plus) ∧ IsPlain c := by
  rw [encodeText, String.toList_ofList] at h
  obtain ⟨b, hb, rfl⟩ := List.mem_map.mp h
  refine ⟨?_, isPlain_of_isEncoded (isEncoded_of_mem_encode b hb)⟩
  rcases of_mem_encode hb with hplain | rfl | ⟨rfl, hstyle⟩
  · exact .inl (isUnreserved_iff.mp hplain)
  · exact .inr (.inl rfl)
  · exact .inr (.inr ⟨rfl, hstyle⟩)

/-! ### Canonical tokens -/

/-- The digit of a value which is written. -/
def HexDigit.IsCapital (digit : HexDigit) : Prop :=
  capitalDigits[digit.value]? = some digit.byte

/-- A token which is written for the byte which it means. -/
def Token.IsCanonical (style : SpaceStyle) : Token → Prop
  | .byte b _ => StandsForItself (Char.ofNat b.toNat) ∨ b = Byte.plus ∧ style = .plus
  | .escape high low =>
      high.IsCapital ∧ low.IsCapital ∧
        ¬ StandsForItself (Char.ofNat (escape high low).value.toNat) ∧
        ¬ (style = .plus ∧ (escape high low).value = Byte.space)

/-- A text of canonical tokens. -/
def IsCanonical (style : SpaceStyle) (text : Bytes) : Prop :=
  ∃ tokens, spell tokens = text ∧ ∀ token ∈ tokens, token.IsCanonical style

theorem Token.isCanonical_ofByte (style : SpaceStyle) (b : UInt8) :
    (Token.ofByte style b).IsCanonical style := by
  have hvalue := Token.value_ofByte style b
  unfold ofByte at hvalue ⊢
  split
  · next hplain => exact .inl (isUnreserved_iff.mp hplain)
  · next hplain =>
      rw [dif_neg hplain] at hvalue
      split
      · next hspace => exact .inr ⟨rfl, hspace.1⟩
      · next hspace =>
          rw [if_neg hspace] at hvalue
          refine ⟨capitalDigits_getElem? (div_lt b), capitalDigits_getElem? (mod_lt b), ?_, ?_⟩
          · rwa [hvalue, ← isUnreserved_iff]
          · rwa [hvalue]

/-- The two digits of an escape are those of its byte. -/
theorem HexDigit.IsCapital.eq_hexDigit {digit : HexDigit} (h : digit.IsCapital) {value : UInt8}
    (hvalue : value.toNat = digit.value) : digit.byte = hexDigit value := by
  have hlt : value < 16 := by
    rw [UInt8.lt_iff_toNat_lt, hvalue]
    exact digit.isDigitOf.lt
  have hdigit := capitalDigits_getElem? hlt
  rw [hvalue, h, Option.some.injEq] at hdigit
  exact hdigit

theorem Token.toNat_value_escape (high low : HexDigit) :
    (escape high low).value.toNat = 16 * high.value + low.value := by
  have hhigh := high.isDigitOf.lt
  have hlow := low.isDigitOf.lt
  rw [value, UInt8.toNat_ofNat']
  omega

/-- A canonical token is what its byte is written as. -/
theorem Token.IsCanonical.text_eq_encodeByte {style : SpaceStyle} {token : Token}
    (h : token.IsCanonical style) : token.text = encodeByte style token.value := by
  cases token with
  | byte b ne_percent =>
      rcases h with hplain | ⟨rfl, rfl⟩
      · rw [← isUnreserved_iff] at hplain
        rw [value, if_neg (ne_plus_of_isUnreserved hplain), encodeByte, if_pos hplain, text]
      · rfl
  | escape high low =>
      obtain ⟨hhigh, hlow, hreserved, hspace⟩ := h
      rw [← isUnreserved_iff] at hreserved
      have htoNat := toNat_value_escape high low
      have hbound := low.isDigitOf.lt
      have hfirst : high.byte = hexDigit ((escape high low).value / 16) := by
        apply hhigh.eq_hexDigit
        simp only [UInt8.toNat_div, htoNat, UInt8.reduceToNat]
        omega
      have hsecond : low.byte = hexDigit ((escape high low).value % 16) := by
        apply hlow.eq_hexDigit
        simp only [UInt8.toNat_mod, htoNat, UInt8.reduceToNat]
        omega
      rw [encodeByte, if_neg hreserved, if_neg hspace, ← hfirst, ← hsecond, text]

/-! ### Canonical texts -/

theorem isCanonical_encode (style : SpaceStyle) (data : Bytes) :
    IsCanonical style (encode style data) := by
  refine ⟨_, spell_map_ofByte style data, fun token htoken => ?_⟩
  obtain ⟨b, -, rfl⟩ := List.mem_map.mp htoken
  exact Token.isCanonical_ofByte style b

/-- What canonical tokens mean is written as them. -/
theorem encode_map_value {style : SpaceStyle} {tokens : List Token}
    (h : ∀ token ∈ tokens, token.IsCanonical style) :
    encode style (tokens.map Token.value) = spell tokens := by
  induction tokens with
  | nil => rfl
  | cons token tokens ih =>
      rw [List.forall_mem_cons] at h
      rw [List.map_cons, encode, List.flatMap_cons, ← h.1.text_eq_encodeByte, ← encode, ih h.2,
        spell_cons]

/-- Of the texts which are decoded to the same bytes, the canonical one is written. -/
theorem encode_eq_iff_isCanonical {text data : Bytes} (h : decode text = .ok data)
    (style : SpaceStyle) : encode style data = text ↔ IsCanonical style text := by
  constructor
  · rintro rfl
    exact isCanonical_encode style data
  · rintro ⟨tokens, rfl, hcanonical⟩
    have hdata : tokens.map Token.value = data := by
      rwa [decode, decodeAt_spell, Except.ok.injEq] at h
    rw [← hdata, encode_map_value hcanonical]

/-- Bytes are read back from the text which is written for them.  It is appended to any
buffer, and it holds unreserved characters, percent signs, and plus signs if spaces are
written as such.  A text which is decoded is written again if and only if it is canonical. -/
theorem encodeText_then_decode (style : SpaceStyle) (data : Bytes) :
    decode (Utf8.ofString (encodeText style data)) = .ok data ∧
      (∀ c ∈ (encodeText style data).toList,
        (StandsForItself c ∨ c = '%' ∨ c = '+' ∧ style = .plus) ∧ IsPlain c) ∧
      (∀ buffer, appendEncoded buffer style data = buffer ++ encodeText style data) ∧
      ∀ text, decode text = .ok data →
        (Utf8.ofString (encodeText style data) = text ↔ IsCanonical style text) := by
  refine ⟨?_, fun c hc => of_mem_encodeText hc, fun _ => rfl, fun text htext => ?_⟩
  · rw [ofString_encodeText, decode_encode]
  · rw [ofString_encodeText, encode_eq_iff_isCanonical htext]

/-- Where spaces are written as plus signs, an escaped space is read but not written. -/
theorem encodeText_then_decode_escaped_space :
    let data := Utf8.ofString "a +é"
    let written := Utf8.ofString "a+%2B%C3%A9"
    let other := Utf8.ofString "a%20%2B%C3%A9"
    Utf8.ofString (encodeText .plus data) = written ∧
      decode written = .ok data ∧ IsCanonical .plus written ∧
      decode other = .ok data ∧ ¬ IsCanonical .plus other := by
  intro data written other
  have hwritten : encode .plus data = written := by decide +kernel
  have hescaped : encode .escape data = other := by decide +kernel
  have hne : written ≠ other := by decide +kernel
  have hother : decode other = .ok data := by
    rw [← hescaped, decode_encode]
  obtain ⟨hread, -, -, htexts⟩ := encodeText_then_decode .plus data
  rw [ofString_encodeText, hwritten] at hread htexts
  rw [ofString_encodeText]
  refine ⟨hwritten, hread, (htexts written hread).mp rfl, hother, fun hcanonical => ?_⟩
  exact hne ((htexts other hother).mpr hcanonical)

end Percent

end StreamingHttp
