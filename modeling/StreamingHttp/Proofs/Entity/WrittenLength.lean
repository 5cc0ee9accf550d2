import StreamingHttp.Entity.Basic
import StreamingHttp.Proofs.Decimal.Words
import StreamingHttp.Proofs.Trim

/-!
# Lengths as they are written

A length is written in decimal digits, with white space around them.  Such a value states the
number which the digits stand for, and it is read if and only if this number is below the
bound.  Nothing else is a length.

The digits are compared with the bound one by one.  Reading them into words of 64 bits, where
each product and each sum is checked, refuses the same values.
-/

namespace StreamingHttp

/-- What is left without white space has to be digits, and their number below the bound. -/
theorem contentLength?_eq_some_iff {value : Bytes} {number : Nat} :
    contentLength? value = some number ↔
      Bytes.trim Byte.isSpace value ≠ [] ∧
        (∀ b ∈ Bytes.trim Byte.isSpace value, Byte.isDigit b = true) ∧
        Decimal.valueFrom 0 (Bytes.trim Byte.isSpace value) = number ∧ number < 2 ^ 64 := by
  have hbound : 0 < lengthBound := by decide
  exact Decimal.read?_eq_some_iff hbound

/-- A length as it is written: digits, with white space around them. -/
structure WrittenLength where
  before : Bytes
  digits : List (Fin 10)
  after : Bytes
  isWhite_before : before.IsWhite
  isWhite_after : after.IsWhite
  digits_ne_nil : digits ≠ []

namespace WrittenLength

variable (written : WrittenLength)

/-- The bytes of a length. -/
def text : Bytes :=
  written.before ++ (written.digits.map Decimal.digitByte ++ written.after)

/-- The number which a length states. -/
def number : Nat :=
  Decimal.numberOf written.digits

/-- The same length with zeros before its digits. -/
def withZeros (zeros : Nat) : WrittenLength :=
  { written with
    digits := List.replicate zeros 0 ++ written.digits
    digits_ne_nil := by simp [written.digits_ne_nil] }

theorem trim_text :
    Bytes.trim Byte.isSpace written.text = written.digits.map Decimal.digitByte := by
  have hdigits : ∀ b ∈ written.digits.map Decimal.digitByte, Byte.isSpace b = false := by
    intro b hb
    obtain ⟨digit, -, rfl⟩ := List.mem_map.mp hb
    exact Byte.isSpace_of_isDigit (Decimal.isDigit_digitByte digit)
  rw [text, Bytes.trim_between (Bytes.isWhite_iff.mp written.isWhite_before)
    (Bytes.isWhite_iff.mp written.isWhite_after)]
  exact Bytes.trim_eq_self (fun b hb => hdigits b (List.mem_of_mem_head? hb))
    fun b hb => hdigits b (List.mem_of_mem_getLast? hb)

/-- What a written length is read as. -/
theorem contentLength?_text_eq_some_iff {number : Nat} :
    contentLength? written.text = some number ↔ written.number = number ∧ number < 2 ^ 64 := by
  have hne : written.digits.map Decimal.digitByte ≠ [] := by
    simpa using written.digits_ne_nil
  have hdigits : ∀ b ∈ written.digits.map Decimal.digitByte, Byte.isDigit b = true := by
    intro b hb
    obtain ⟨digit, -, rfl⟩ := List.mem_map.mp hb
    exact Decimal.isDigit_digitByte digit
  rw [contentLength?_eq_some_iff, trim_text, Decimal.valueFrom_map_digitByte]
  exact ⟨fun h => h.2.2, fun h => ⟨hne, hdigits, h⟩⟩

end WrittenLength

/-- Every value which is read is a length as it is written. -/
theorem exists_writtenLength {value : Bytes} {number : Nat}
    (h : contentLength? value = some number) :
    ∃ written : WrittenLength, written.text = value := by
  obtain ⟨hne, hdigits, -⟩ := contentLength?_eq_some_iff.mp h
  obtain ⟨before, after, hvalue, hbefore, hafter⟩ := Bytes.exists_between Byte.isSpace value
  obtain ⟨digits, hmap⟩ := Decimal.exists_map_digitByte_eq hdigits
  rw [← hmap] at hne hvalue
  exact ⟨⟨before, digits, after, Bytes.isWhite_iff.mpr hbefore, Bytes.isWhite_iff.mpr hafter,
    by simpa using hne⟩, hvalue.symm⟩

/-- The checks of both readers fail for the same values. -/
theorem contentLength?_eq_map_readWord? (value : Bytes) :
    contentLength? value =
      (Decimal.readWord? (Bytes.trim Byte.isSpace value)).map UInt64.toNat := by
  ext number
  rw [contentLength?_eq_some_iff, Option.map_eq_some_iff]
  simp only [Decimal.readWord?_eq_some_iff]
  constructor
  · rintro ⟨hne, hdigits, hvalue, hfits⟩
    obtain ⟨word, hword⟩ := Decimal.exists_toNat_eq hfits
    exact ⟨word, ⟨hne, hdigits, hvalue.trans hword.symm⟩, hword⟩
  · rintro ⟨word, ⟨hne, hdigits, hvalue⟩, rfl⟩
    exact ⟨hne, hdigits, hvalue, word.toNat_lt⟩

/-- The value of a length field is read as the number which its digits stand for, between
white space and with any number of zeros before it, if this number is below `2 ^ 64`.  Any
other value is refused, and words with two checks for each digit give the same. -/
theorem contentLength?_is_written_number (value : Bytes) :
    (∀ number, contentLength? value = some number ↔
      number < 2 ^ 64 ∧
        ∃ written : WrittenLength, written.text = value ∧ written.number = number) ∧
      (contentLength? value = none ↔
        ∀ written : WrittenLength, written.text = value → 2 ^ 64 ≤ written.number) ∧
      contentLength? value =
        (Decimal.readWord? (Bytes.trim Byte.isSpace value)).map UInt64.toNat ∧
      ∀ (written : WrittenLength) (zeros : Nat),
        contentLength? (written.withZeros zeros).text = contentLength? written.text := by
  have hsome (number : Nat) : contentLength? value = some number ↔
      number < 2 ^ 64 ∧
        ∃ written : WrittenLength, written.text = value ∧ written.number = number := by
    constructor
    · intro h
      obtain ⟨written, rfl⟩ := exists_writtenLength h
      obtain ⟨hnumber, hfits⟩ := written.contentLength?_text_eq_some_iff.mp h
      exact ⟨hfits, written, rfl, hnumber⟩
    · rintro ⟨hfits, written, rfl, hnumber⟩
      exact written.contentLength?_text_eq_some_iff.mpr ⟨hnumber, hfits⟩
  refine ⟨hsome, ?_, contentLength?_eq_map_readWord? value, fun written zeros => ?_⟩
  · rw [Option.eq_none_iff_forall_ne_some]
    constructor
    · intro h written htext
      rw [← Nat.not_lt]
      exact fun hfits => h _ ((hsome _).mpr ⟨hfits, written, htext, rfl⟩)
    · intro h number hread
      obtain ⟨hfits, written, htext, rfl⟩ := (hsome number).mp hread
      exact absurd hfits (Nat.not_lt.mpr (h written htext))
  · ext number
    have hnumber : (written.withZeros zeros).number = written.number :=
      Decimal.numberOf_zeros_append zeros written.digits
    rw [WrittenLength.contentLength?_text_eq_some_iff,
      WrittenLength.contentLength?_text_eq_some_iff, hnumber]

/-- The greatest length, and the next number, with zeros before them too. -/
theorem contentLength?_is_written_number_at_bound :
    let greatest : WrittenLength :=
      ⟨[Byte.tab], [1, 8, 4, 4, 6, 7, 4, 4, 0, 7, 3, 7, 0, 9, 5, 5, 1, 6, 1, 5],
        [Byte.space, Byte.cr, Byte.lf], by simp [Bytes.IsWhite, Byte.whiteSpace],
        by simp [Bytes.IsWhite, Byte.whiteSpace], by simp⟩
    let next : WrittenLength :=
      ⟨[], [1, 8, 4, 4, 6, 7, 4, 4, 0, 7, 3, 7, 0, 9, 5, 5, 1, 6, 1, 6], [Byte.ff],
        by simp [Bytes.IsWhite], by simp [Bytes.IsWhite, Byte.whiteSpace], by simp⟩
    contentLength? (greatest.withZeros 3).text = some 18446744073709551615 ∧
      contentLength? (next.withZeros 3).text = none ∧ 2 ^ 64 ≤ next.number := by
  intro greatest next
  have hnumber : greatest.number = 18446744073709551615 := by decide +kernel
  have hrefused : contentLength? next.text = none := by decide +kernel
  obtain ⟨hread, -, -, hzeros⟩ := contentLength?_is_written_number greatest.text
  obtain ⟨-, hnone, -, -⟩ := contentLength?_is_written_number next.text
  refine ⟨?_, ?_, hnone.mp hrefused next rfl⟩
  · rw [hzeros]
    exact (hread _).mpr ⟨by decide, greatest, rfl, hnumber⟩
  · rw [hzeros, hrefused]

end StreamingHttp
