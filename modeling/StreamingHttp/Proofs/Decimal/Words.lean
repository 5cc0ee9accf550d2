import StreamingHttp.Proofs.Decimal
import Mathlib.Data.List.Induction
import Mathlib.Data.Nat.Digits.Defs

/-!
# Digits and words

The digits of a numeral stand for a number: each digit counts ten times as much as the one
behind it.  Reading them from the left gives this number (`valueFrom_map_digitByte`).

A reader which computes with words of 64 bits checks each digit twice: ten times the number so
far has to fit, and so has the sum with the digit.  `readWord?` does so.  The number of more
digits is never smaller, so a check fails if and only if the number of all digits does not fit.
-/

namespace StreamingHttp

namespace Decimal

/-! ### Digits -/

/-- The byte which is written for a digit. -/
def digitByte (digit : Fin 10) : UInt8 :=
  UInt8.ofNat (0x30 + digit)

/-- The number which digits stand for, the digit of the units being the last one. -/
def numberOf (digits : List (Fin 10)) : Nat :=
  Nat.ofDigits 10 (digits.reverse.map Fin.val)

theorem toNat_digitByte (digit : Fin 10) : (digitByte digit).toNat = 0x30 + digit := by
  have := digit.isLt
  rw [digitByte, UInt8.toNat_ofNat']
  omega

theorem isDigit_digitByte (digit : Fin 10) : Byte.isDigit (digitByte digit) = true := by
  revert digit
  decide

theorem exists_digitByte_eq {b : UInt8} (h : Byte.isDigit b = true) :
    ∃ digit, digitByte digit = b := by
  simp only [Byte.isDigit, Bool.and_eq_true, decide_eq_true_eq, UInt8.le_iff_toNat_le] at h
  have hlow : 0x30 ≤ b.toNat := h.1
  have hhigh : b.toNat ≤ 0x39 := h.2
  refine ⟨⟨b.toNat - 0x30, by omega⟩, UInt8.toNat_inj.mp ?_⟩
  rw [toNat_digitByte]
  exact Nat.add_sub_of_le hlow

/-- A byte string of digits is written for some digits. -/
theorem exists_map_digitByte_eq {bytes : Bytes} (h : ∀ b ∈ bytes, Byte.isDigit b = true) :
    ∃ digits : List (Fin 10), digits.map digitByte = bytes := by
  induction bytes with
  | nil => exact ⟨[], rfl⟩
  | cons b bytes ih =>
      rw [List.forall_mem_cons] at h
      obtain ⟨digit, rfl⟩ := exists_digitByte_eq h.1
      obtain ⟨digits, rfl⟩ := ih h.2
      exact ⟨digit :: digits, rfl⟩

/-- Digits are read from the left to the number which they stand for. -/
theorem valueFrom_map_digitByte (digits : List (Fin 10)) :
    valueFrom 0 (digits.map digitByte) = numberOf digits := by
  induction digits using List.reverseRecOn with
  | nil => rfl
  | append_singleton digits digit ih =>
      have hlast (value : Nat) : valueFrom value [digitByte digit] = 10 * value + digit := by
        show 10 * value + ((digitByte digit).toNat - 0x30) = _
        rw [toNat_digitByte, Nat.add_sub_cancel_left]
      rw [List.map_append, valueFrom_append, ih, List.map_singleton, hlast, numberOf, numberOf,
        List.reverse_append, List.reverse_singleton, List.singleton_append, List.map_cons,
        Nat.ofDigits_cons]
      exact Nat.add_comm _ _

/-- Zeros before the other digits do not count. -/
theorem numberOf_zeros_append (zeros : Nat) (digits : List (Fin 10)) :
    numberOf (List.replicate zeros 0 ++ digits) = numberOf digits := by
  rw [numberOf, List.reverse_append, List.reverse_replicate, List.map_append,
    List.map_replicate]
  exact Nat.ofDigits_append_replicate_zero _

/-! ### Words -/

/-- The product of two words, if it fits. -/
def mulWord? (a b : UInt64) : Option UInt64 :=
  if a.toNat * b.toNat < 2 ^ 64 then some (a * b) else none

/-- The sum of two words, if it fits. -/
def addWord? (a b : UInt64) : Option UInt64 :=
  if a.toNat + b.toNat < 2 ^ 64 then some (a + b) else none

/-- Appends one digit to the value of a numeral, in two steps each of which is checked. -/
def appendDigitWord? (value : UInt64) (b : UInt8) : Option UInt64 := do
  let tens ← mulWord? value 10
  addWord? tens (b - 0x30).toUInt64

/-- The value of a numeral, if it fits into a word. -/
def readWord? (digits : Bytes) : Option UInt64 :=
  if digits.isEmpty || !digits.all Byte.isDigit then none
  else digits.foldlM appendDigitWord? 0

/-- A number is that of some word if it fits. -/
theorem exists_toNat_eq {number : Nat} (h : number < 2 ^ 64) :
    ∃ word : UInt64, word.toNat = number :=
  ⟨UInt64.ofNat number, UInt64.toNat_ofNat_of_lt' h⟩

/-- A result which is checked is refused only if no word is the number. -/
theorem checked_eq_some_iff {number : Nat} {word result : UInt64}
    (h : word.toNat = number % 2 ^ 64) :
    (if number < 2 ^ 64 then some word else none) = some result ↔ result.toNat = number := by
  split
  · next hfits =>
      rw [Option.some.injEq, ← UInt64.toNat_inj, h, Nat.mod_eq_of_lt hfits, eq_comm]
  · next hfits =>
      refine iff_of_false nofun ?_
      rintro rfl
      exact hfits result.toNat_lt

theorem mulWord?_eq_some_iff {a b product : UInt64} :
    mulWord? a b = some product ↔ product.toNat = a.toNat * b.toNat :=
  checked_eq_some_iff (UInt64.toNat_mul a b)

theorem addWord?_eq_some_iff {a b sum : UInt64} :
    addWord? a b = some sum ↔ sum.toNat = a.toNat + b.toNat :=
  checked_eq_some_iff (UInt64.toNat_add a b)

/-- Neither check of a digit fails if a word is the number with the digit behind it. -/
theorem appendDigitWord?_eq_some_iff {value next : UInt64} {b : UInt8}
    (h : Byte.isDigit b = true) :
    appendDigitWord? value b = some next ↔ next.toNat = 10 * value.toNat + (b.toNat - 0x30) := by
  obtain ⟨digit, rfl⟩ := exists_digitByte_eq h
  have hdigit : (digitByte digit - 0x30).toUInt64.toNat = (digitByte digit).toNat - 0x30 := by
    have hle : (0x30 : UInt8) ≤ digitByte digit := by
      rw [UInt8.le_iff_toNat_le, toNat_digitByte]
      exact Nat.le_add_right _ _
    rw [UInt8.toNat_toUInt64, UInt8.toNat_sub_of_le _ _ hle]
    rfl
  have hnext := next.toNat_lt
  simp only [appendDigitWord?, Option.bind_eq_bind, Option.bind_eq_some_iff, mulWord?_eq_some_iff,
    addWord?_eq_some_iff, hdigit]
  have hten : (10 : UInt64).toNat = 10 := rfl
  constructor
  · rintro ⟨tens, htens, hsum⟩
    rw [hsum, htens, hten, Nat.mul_comm]
  · intro hsum
    obtain ⟨tens, htens⟩ := @exists_toNat_eq (value.toNat * 10) (by omega)
    exact ⟨tens, htens, by rw [hsum, htens, Nat.mul_comm]⟩

theorem foldlM_word_eq_some_iff {value word : UInt64} {digits : Bytes}
    (h : ∀ b ∈ digits, Byte.isDigit b = true) :
    digits.foldlM appendDigitWord? value = some word ↔
      valueFrom value.toNat digits = word.toNat := by
  induction digits generalizing value with
  | nil =>
      rw [List.foldlM_nil, Option.pure_def, Option.some.injEq, ← UInt64.toNat_inj]
      rfl
  | cons b digits ih =>
      rw [List.forall_mem_cons] at h
      simp only [List.foldlM_cons, Option.bind_eq_bind, Option.bind_eq_some_iff,
        appendDigitWord?_eq_some_iff h.1, ih h.2]
      constructor
      · rintro ⟨next, hnext, hword⟩
        rw [hnext] at hword
        exact hword
      · intro hword
        -- The number of all digits fits, so it fits up to this digit.
        have hgrows : 10 * value.toNat + (b.toNat - 0x30) ≤ word.toNat :=
          hword ▸ le_valueFrom _ digits
        obtain ⟨next, hnext⟩ := exists_toNat_eq (Nat.lt_of_le_of_lt hgrows word.toNat_lt)
        refine ⟨next, hnext, ?_⟩
        rw [hnext]
        exact hword

/-- A word is read if and only if the digits stand for its number. -/
theorem readWord?_eq_some_iff {digits : Bytes} {word : UInt64} :
    readWord? digits = some word ↔
      digits ≠ [] ∧ (∀ b ∈ digits, Byte.isDigit b = true) ∧
        valueFrom 0 digits = word.toNat := by
  rw [readWord?]
  split
  · next hrefused =>
      refine iff_of_false nofun ?_
      rintro ⟨hne, hdigits, -⟩
      have hall : digits.all Byte.isDigit = true := List.all_eq_true.mpr hdigits
      simp [hne, hall] at hrefused
  · next hread =>
      simp only [Bool.or_eq_true, List.isEmpty_iff, Bool.not_eq_true', not_or,
        Bool.not_eq_false, List.all_eq_true] at hread
      rw [foldlM_word_eq_some_iff hread.2]
      exact ⟨fun h => ⟨hread.1, hread.2, h⟩, fun h => h.2.2⟩

end Decimal

end StreamingHttp
