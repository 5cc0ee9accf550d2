import StreamingHttp.Decimal
import StreamingHttp.Proofs.Text.Utf8RoundTrip

/-!
# What a numeral is read as

A numeral is read by appending one digit after the other, and refused as soon as the bound
is reached.  What is appended only makes the number grow, so nothing is refused too early:
a numeral is read if and only if it consists of digits, of one at least, and the number
which they stand for is below the bound.

The same is said of the characters of a text.  In particular a number below the bound is
read back from its decimal digits.
-/

namespace StreamingHttp

namespace Decimal

/-- The number which digits stand for if they are written behind those of another
number. -/
def valueFrom (value : Nat) (digits : Bytes) : Nat :=
  digits.foldl (fun value b => 10 * value + (b.toNat - 0x30)) value

theorem le_valueFrom (value : Nat) (digits : Bytes) : value ≤ valueFrom value digits := by
  induction digits generalizing value with
  | nil => exact Nat.le_refl value
  | cons b digits ih =>
      calc value ≤ 10 * value + (b.toNat - 0x30) := by omega
        _ ≤ valueFrom value (b :: digits) := ih _

theorem valueFrom_append (value : Nat) (digits later : Bytes) :
    valueFrom value (digits ++ later) = valueFrom (valueFrom value digits) later :=
  List.foldl_append

/-- Digits behind a number change it, unless the number is zero and so are they. -/
theorem valueFrom_eq_self_iff {value : Nat} {digits : Bytes} :
    valueFrom value digits = value ↔ digits = [] ∨ value = 0 ∧ valueFrom 0 digits = 0 := by
  cases digits with
  | nil => exact iff_of_true rfl (.inl rfl)
  | cons b digits =>
      have hgrows : 10 * value + (b.toNat - 0x30) ≤ valueFrom value (b :: digits) :=
        le_valueFrom _ digits
      constructor
      · intro hsame
        obtain rfl : value = 0 := by omega
        exact .inr ⟨rfl, hsame⟩
      · rintro (hnil | ⟨rfl, hzero⟩)
        · cases hnil
        · exact hzero

theorem appendDigit?_eq_some_iff {bound value next : Nat} {b : UInt8} :
    appendDigit? bound value b = some next ↔
      Byte.isDigit b = true ∧ 10 * value + (b.toNat - 0x30) = next ∧ next < bound := by
  rw [appendDigit?, digit?]
  cases hdigit : Byte.isDigit b with
  | false => simp
  | true =>
      simp only [if_true, true_and]
      split
      · next hbound =>
          rw [Option.some.injEq]
          exact ⟨fun h => ⟨h, h ▸ hbound⟩, fun h => h.1⟩
      · next hbound =>
          constructor
          · intro h
            cases h
          · rintro ⟨rfl, hnext⟩
            exact absurd hnext hbound

/-- Appending digits behind a number below the bound. -/
theorem foldlM_eq_some_iff {bound value number : Nat} {digits : Bytes} (h : value < bound) :
    digits.foldlM (appendDigit? bound) value = some number ↔
      (∀ b ∈ digits, Byte.isDigit b = true) ∧ valueFrom value digits = number ∧
        number < bound := by
  induction digits generalizing value with
  | nil =>
      have hvalue : valueFrom value [] = value := rfl
      simp only [List.foldlM_nil, Option.pure_def, Option.some.injEq, hvalue,
        List.not_mem_nil, false_implies, implies_true, true_and]
      exact ⟨fun heq => ⟨heq, heq ▸ h⟩, fun heq => heq.1⟩
  | cons b digits ih =>
      rw [List.foldlM_cons, Option.bind_eq_bind, Option.bind_eq_some_iff, List.forall_mem_cons]
      constructor
      · rintro ⟨next, hnext, hlater⟩
        obtain ⟨hdigit, rfl, hbound⟩ := appendDigit?_eq_some_iff.mp hnext
        obtain ⟨hdigits, hnumber⟩ := (ih hbound).mp hlater
        exact ⟨⟨hdigit, hdigits⟩, hnumber⟩
      · rintro ⟨⟨hdigit, hdigits⟩, hnumber, hbound⟩
        -- Further digits only make the number grow, so it has not reached the bound here.
        have hgrows := le_valueFrom (10 * value + (b.toNat - 0x30)) digits
        have hnext : 10 * value + (b.toNat - 0x30) < bound :=
          Nat.lt_of_le_of_lt hgrows (hnumber ▸ hbound)
        exact ⟨_, appendDigit?_eq_some_iff.mpr ⟨hdigit, rfl, hnext⟩,
          (ih hnext).mpr ⟨hdigits, hnumber, hbound⟩⟩

/-- A numeral is read as the number which its digits stand for, if that is below the
bound. -/
theorem read?_eq_some_iff {bound number : Nat} {digits : Bytes} (h : 0 < bound) :
    read? bound digits = some number ↔
      digits ≠ [] ∧ (∀ b ∈ digits, Byte.isDigit b = true) ∧ valueFrom 0 digits = number ∧
        number < bound := by
  rw [read?, ← foldlM_eq_some_iff h]
  cases digits with
  | nil => simp
  | cons b digits => simp

/-- More behind a numeral does not change what is read iff there is nothing more, or there is
a numeral which is refused in any case, or there was nothing and what is more is refused, or
zeros stand behind zeros. -/
theorem read?_append_eq_iff {bound : Nat} {digits later : Bytes} (h : 0 < bound) :
    read? bound (digits ++ later) = read? bound digits ↔
      later = [] ∨
        read? bound digits = none ∧ (digits ≠ [] ∨ read? bound later = none) ∨
        read? bound digits = some 0 ∧ read? bound later = some 0 := by
  by_cases hlater : later = []
  · simp [hlater]
  by_cases hdigits : digits = []
  · subst hdigits
    have hnone : read? bound [] = none := rfl
    simp [hlater, hnone]
  cases hread : read? bound digits with
  | none =>
      -- Refused digits are refused with more behind them.
      have hboth : read? bound (digits ++ later) = none := by
        rw [Option.eq_none_iff_forall_ne_some]
        intro number hnumber
        obtain ⟨-, hall, hvalue, hbound⟩ := (read?_eq_some_iff h).mp hnumber
        rw [List.forall_mem_append] at hall
        rw [valueFrom_append] at hvalue
        have hgrows := le_valueFrom (valueFrom 0 digits) later
        have hfirst := (read?_eq_some_iff h).mpr
          ⟨hdigits, hall.1, rfl, by omega⟩
        rw [hread] at hfirst
        cases hfirst
      simp [hboth, hdigits]
  | some number =>
      obtain ⟨-, hall, hvalue, hbound⟩ := (read?_eq_some_iff h).mp hread
      rw [read?_eq_some_iff h, read?_eq_some_iff h, List.forall_mem_append, valueFrom_append,
        hvalue, valueFrom_eq_self_iff]
      constructor
      · rintro ⟨-, ⟨-, hall'⟩, hnil | ⟨rfl, hzero⟩, -⟩
        · exact .inl hnil
        · exact .inr (.inr ⟨rfl, hlater, hall', hzero, h⟩)
      · rintro (hnil | ⟨hnone, -⟩ | ⟨hsame, -, hall', hzero, -⟩)
        · exact absurd hnil hlater
        · cases hnone
        · have hnumber : number = 0 := Option.some.inj hsame
          exact ⟨by simp [hdigits], ⟨hall, hall'⟩, .inr ⟨hnumber, hzero⟩, hbound⟩

/-! ### Digits as characters -/

theorem encodeChar_of_isDigit {c : Char} (h : c.isDigit = true) :
    String.utf8EncodeChar c = [UInt8.ofNat c.toNat] := by
  obtain ⟨hlow, hhigh⟩ := Char.isDigit_iff_toNat.mp h
  have hzero : '0'.toNat = 48 := rfl
  have hnine : '9'.toNat = 57 := rfl
  have hvalue : (UInt8.ofNat c.toNat).toNat = c.toNat := by
    rw [UInt8.toNat_ofNat', Nat.mod_eq_of_lt (by omega)]
  have hbyte : UInt8.ofNat c.toNat < 0x80 := by
    rw [UInt8.lt_iff_toNat_lt, hvalue]
    exact Nat.lt_of_le_of_lt hhigh (by decide)
  have hencode := Utf8.encodeChar_ofNat hbyte
  rwa [hvalue, Char.ofNat_toNat] at hencode

theorem isDigit_ofNat_iff {b : UInt8} :
    (Char.ofNat b.toNat).isDigit = true ↔ Byte.isDigit b = true := by
  have hall : ∀ value < 256, (Char.ofNat (UInt8.ofNat value).toNat).isDigit = true ↔
      Byte.isDigit (UInt8.ofNat value) = true := by decide +kernel
  have hvalue := hall b.toNat b.toNat_lt
  rwa [UInt8.ofNat_toNat] at hvalue

/-- A text is written in digits if and only if its bytes are. -/
theorem forall_isDigit_encode_iff {chars : List Char} :
    (∀ b ∈ Utf8.encode chars, Byte.isDigit b = true) ↔ ∀ c ∈ chars, c.isDigit = true := by
  have hlow {b : UInt8} (hb : Byte.isDigit b = true) : b < 0x80 := by
    simp only [Byte.isDigit, Bool.and_eq_true, decide_eq_true_eq] at hb
    exact Nat.lt_of_le_of_lt hb.2 (by decide)
  constructor
  · intro h c hc
    obtain ⟨b, tails, hencode, -⟩ := Utf8.exists_encodeChar_eq_cons c
    have hmem : b ∈ String.utf8EncodeChar c := hencode ▸ List.mem_cons_self
    have hdigit := h b (List.mem_flatMap.mpr ⟨c, hc, hmem⟩)
    rw [Utf8.eq_of_mem_encodeChar (hlow hdigit) hmem]
    exact isDigit_ofNat_iff.mpr hdigit
  · intro h b hb
    obtain ⟨c, hc, hmem⟩ := List.mem_flatMap.mp hb
    rw [encodeChar_of_isDigit (h c hc), List.mem_singleton] at hmem
    obtain ⟨hlow, hhigh⟩ := Char.isDigit_iff_toNat.mp (h c hc)
    have hzero : '0'.toNat = 48 := rfl
    have hnine : '9'.toNat = 57 := rfl
    subst hmem
    rw [← isDigit_ofNat_iff, UInt8.toNat_ofNat', Nat.mod_eq_of_lt (by omega),
      Char.ofNat_toNat]
    exact h c hc

/-- The bytes of a numeral stand for the number which its characters stand for. -/
theorem valueFrom_encode {chars : List Char} (h : ∀ c ∈ chars, c.isDigit = true)
    (value : Nat) : valueFrom value (Utf8.encode chars) = Nat.ofDigitChars 10 chars value := by
  induction chars generalizing value with
  | nil => rfl
  | cons c chars ih =>
      rw [List.forall_mem_cons] at h
      obtain ⟨hlow, hhigh⟩ := Char.isDigit_iff_toNat.mp h.1
      have hzero : '0'.toNat = 0x30 := rfl
      have hnine : '9'.toNat = 57 := rfl
      have hbyte : (UInt8.ofNat c.toNat).toNat = c.toNat := by
        rw [UInt8.toNat_ofNat', Nat.mod_eq_of_lt (by omega)]
      have hcons : valueFrom value (UInt8.ofNat c.toNat :: Utf8.encode chars) =
          valueFrom (10 * value + ((UInt8.ofNat c.toNat).toNat - 0x30))
            (Utf8.encode chars) := rfl
      rw [Utf8.encode_cons, encodeChar_of_isDigit h.1, List.singleton_append, hcons,
        ih h.2, Nat.ofDigitChars_cons, hbyte, hzero]

/-- A numeral as text is read as the number which its digits stand for, if that is below
the bound. -/
theorem read?_encode_eq_some_iff {bound number : Nat} {chars : List Char} (h : 0 < bound) :
    read? bound (Utf8.encode chars) = some number ↔
      chars ≠ [] ∧ (∀ c ∈ chars, c.isDigit = true) ∧ Nat.ofDigitChars 10 chars 0 = number ∧
        number < bound := by
  have hnil : Utf8.encode chars = [] ↔ chars = [] :=
    ⟨fun hempty => Utf8.encode_injective hempty, fun hempty => hempty ▸ rfl⟩
  rw [read?_eq_some_iff h, forall_isDigit_encode_iff, ne_eq, hnil]
  constructor
  · rintro ⟨hne, hdigits, hvalue, hbound⟩
    exact ⟨hne, hdigits, valueFrom_encode hdigits 0 ▸ hvalue, hbound⟩
  · rintro ⟨hne, hdigits, hvalue, hbound⟩
    exact ⟨hne, hdigits, (valueFrom_encode hdigits 0).trans hvalue, hbound⟩

end Decimal

end StreamingHttp
