import StreamingHttp.Bytes
import Mathlib.Data.List.Forall2
import Mathlib.Tactic.Tauto

/-!
# Classes of bytes

White space is five bytes.  Letters are compared without their case, so a word is recognised
in each of its spellings: its letters, any of them as capitals, and nothing else.
-/

namespace StreamingHttp

namespace Byte

/-- What holds of the first numbers as bytes holds of the bytes below a bound. -/
theorem of_forall_lt {p : UInt8 → Prop} {bound : Nat}
    (h : ∀ value < bound, p (UInt8.ofNat value)) {b : UInt8} (hb : b.toNat < bound) :
    p b := by
  have hvalue := h b.toNat hb
  rwa [UInt8.ofNat_toNat] at hvalue

/-- The bytes of white space. -/
def whiteSpace : List UInt8 :=
  [space, tab, lf, ff, cr]

theorem mem_whiteSpace_iff {b : UInt8} : b ∈ whiteSpace ↔ isSpace b = true := by
  simp only [whiteSpace, isSpace, isBlank, isLineEnd, List.mem_cons, List.not_mem_nil, or_false,
    Bool.or_eq_true, beq_iff_eq]
  tauto

theorem isSpace_eq_false_iff {b : UInt8} : isSpace b = false ↔ b ∉ whiteSpace := by
  rw [mem_whiteSpace_iff, Bool.not_eq_true]

theorem isSpace_of_isDigit {b : UInt8} (h : isDigit b = true) : isSpace b = false := by
  rw [isSpace_eq_false_iff]
  intro hspace
  have hall : ∀ other ∈ whiteSpace, isDigit other = false := by decide +kernel
  rw [hall b hspace] at h
  cases h

/-- A small letter comes from itself and from its capital, any other byte from itself. -/
theorem toLower_eq_iff {b small : UInt8} (h : isUpper small = false) :
    toLower b = small ↔ b = small ∨ isLower small = true ∧ b + 0x20 = small := by
  -- The small letters are the capitals, 32 places on.
  have hplaces : isLower (b + 0x20) = isUpper b := by
    have hall : ∀ value < 256,
        isLower (UInt8.ofNat value + 0x20) = isUpper (UInt8.ofNat value) := by decide +kernel
    exact of_forall_lt (p := fun b => isLower (b + 0x20) = isUpper b) hall b.toNat_lt
  rw [toLower]
  split
  · next hcapital =>
      constructor
      · rintro rfl
        exact .inr ⟨hplaces.trans hcapital, rfl⟩
      · rintro (rfl | ⟨-, hsmall⟩)
        · rw [hcapital] at h
          cases h
        · exact hsmall
  · next hother =>
      constructor
      · exact .inl
      · rintro (hsame | ⟨hlower, rfl⟩)
        · exact hsame
        · exact absurd (hplaces.symm.trans hlower) hother

end Byte

namespace Bytes

/-- White space and nothing else. -/
def IsWhite (bytes : Bytes) : Prop :=
  ∀ b ∈ bytes, b ∈ Byte.whiteSpace

theorem isWhite_iff {bytes : Bytes} : bytes.IsWhite ↔ ∀ b ∈ bytes, Byte.isSpace b = true :=
  forall₂_congr fun _ _ => Byte.mem_whiteSpace_iff

/-! ### Words in any case -/

variable {word spelled : Bytes}

/-- The bytes spell a word of small letters: each letter is small or capital. -/
def Spells (spelled word : Bytes) : Prop :=
  List.Forall₂ (fun b small => b = small ∨ Byte.isLower small = true ∧ b + 0x20 = small)
    spelled word

theorem map_toLower_eq_iff (h : ∀ small ∈ word, Byte.isUpper small = false) :
    spelled.map Byte.toLower = word ↔ spelled.Spells word := by
  rw [Spells, ← List.forall₂_eq_eq_eq, List.forall₂_map_left_iff]
  induction word generalizing spelled with
  | nil => rw [List.forall₂_nil_right_iff, List.forall₂_nil_right_iff]
  | cons small word ih =>
      rw [List.forall_mem_cons] at h
      simp only [List.forall₂_cons_right_iff, Byte.toLower_eq_iff h.1, ih h.2]

/-- Comparing without the case of letters is asking for the letters in any case. -/
theorem sameIgnoringCase_iff (h : ∀ small ∈ word, Byte.isUpper small = false) :
    sameIgnoringCase spelled word = true ↔ spelled.Spells word := by
  have hword : word.map Byte.toLower = word := by
    rw [map_toLower_eq_iff h]
    exact List.forall₂_same.mpr fun small _ => .inl rfl
  rw [sameIgnoringCase, beq_iff_eq, hword, map_toLower_eq_iff h]

/-- A byte which is no letter of the word does not occur in its spellings. -/
theorem Spells.notMem {b : UInt8} (hspells : spelled.Spells word)
    (h : ∀ small ∈ word, Byte.isUpper small = false) (hb : Byte.toLower b ∉ word) :
    b ∉ spelled := by
  intro hmem
  rw [← map_toLower_eq_iff h] at hspells
  exact hb (hspells ▸ List.mem_map_of_mem hmem)

end Bytes

end StreamingHttp
