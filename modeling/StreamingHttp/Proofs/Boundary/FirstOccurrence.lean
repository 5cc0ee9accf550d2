import StreamingHttp.Bytes
import Mathlib.Data.List.Infix

/-!
# The first occurrence of a pattern

A pattern occurs at a position of a text if the text goes on with it there.  The
first occurrence is read off a text which is written around it: nothing before its
last byte completes the pattern.
-/

namespace StreamingHttp

namespace Boundary

/-- The text goes on with the pattern at this position. -/
def OccursAt (pattern text : Bytes) (position : Nat) : Prop :=
  pattern <+: text.drop position

instance (pattern text : Bytes) (position : Nat) :
    Decidable (OccursAt pattern text position) :=
  inferInstanceAs (Decidable (pattern <+: text.drop position))

/-- The first position at which the text goes on with the pattern. -/
structure FirstOccurrence (pattern text : Bytes) (position : Nat) : Prop where
  occurs : OccursAt pattern text position
  first : ∀ earlier < position, ¬ OccursAt pattern text earlier

variable {pattern text front before after : Bytes} {position : Nat}

theorem FirstOccurrence.unique {other : Nat}
    (h : FirstOccurrence pattern text position)
    (hother : FirstOccurrence pattern text other) : position = other := by
  rcases Nat.lt_trichotomy position other with hlt | heq | hgt
  · exact absurd h.occurs (hother.first position hlt)
  · exact heq
  · exact absurd hother.occurs (h.first other hgt)

theorem OccursAt.isInfix (h : OccursAt pattern text position) : pattern <:+: text :=
  (List.IsPrefix.isInfix h).trans (List.drop_suffix position text).isInfix

theorem occursAt_length (before pattern after : Bytes) :
    OccursAt pattern (before ++ pattern ++ after) before.length := by
  rw [OccursAt, List.append_assoc, List.drop_left]
  exact List.prefix_append _ _

theorem isInfix_iff_exists_occursAt :
    pattern <:+: text ↔ ∃ position, OccursAt pattern text position := by
  constructor
  · rintro ⟨before, after, rfl⟩
    exact ⟨before.length, occursAt_length before pattern after⟩
  · rintro ⟨position, h⟩
    exact h.isInfix

/-- An occurrence stays within the bytes up to its end. -/
theorem OccursAt.isInfix_take (h : OccursAt pattern text position) :
    pattern <:+: text.take (position + pattern.length) := by
  rw [List.take_add, ← List.prefix_iff_eq_take.mp h]
  exact (List.suffix_append _ _).isInfix

/-- An occurrence is the first one if no byte before its last one completes the
pattern. -/
theorem firstOccurrence_of_append
    (h : ¬ pattern <:+: (before ++ pattern).dropLast) :
    FirstOccurrence pattern (before ++ pattern ++ after) before.length where
  occurs := occursAt_length before pattern after
  first := by
    intro earlier hearlier hoccurs
    apply h
    apply hoccurs.isInfix_take.trans
    rw [List.dropLast_eq_take, List.take_append_of_le_length (by simp; omega)]
    refine (List.take_prefix_take_left ?_).isInfix
    rw [List.length_append]
    omega

theorem OccursAt.getElem?_eq (h : OccursAt pattern text position) {offset : Nat}
    (hoffset : offset < pattern.length) :
    text[position + offset]? = pattern[offset]? := by
  obtain ⟨after, hafter⟩ := h
  rw [← List.getElem?_drop, ← hafter, List.getElem?_append_left hoffset]

theorem OccursAt.length_le (h : OccursAt pattern text position)
    (hpattern : pattern ≠ []) :
    position + pattern.length ≤ text.length := by
  have hlength := List.IsPrefix.length_le h
  have hpos := List.length_pos_iff.mpr hpattern
  rw [List.length_drop] at hlength
  omega

theorem occursAt_append_iff (h : front.length ≤ position) :
    OccursAt pattern (front ++ text) position ↔
      OccursAt pattern text (position - front.length) := by
  rw [OccursAt, OccursAt, List.drop_append, List.drop_eq_nil_of_le h,
    List.nil_append]

/-- Bytes in which the pattern does not start only move its first occurrence. -/
theorem FirstOccurrence.append_left (h : FirstOccurrence pattern text position)
    (hfront : ∀ earlier, OccursAt pattern (front ++ text) earlier → front.length ≤ earlier) :
    FirstOccurrence pattern (front ++ text) (front.length + position) where
  occurs := by
    rw [occursAt_append_iff (Nat.le_add_right _ _), Nat.add_sub_cancel_left]
    exact h.occurs
  first := by
    intro earlier hearlier hoccurs
    have hbehind := hfront earlier hoccurs
    exact h.first (earlier - front.length) (by omega)
      ((occursAt_append_iff hbehind).mp hoccurs)

/-- Such bytes do not make the pattern occur. -/
theorem isInfix_of_isInfix_append
    (hfront : ∀ position, OccursAt pattern (front ++ text) position → front.length ≤ position)
    (h : pattern <:+: front ++ text) : pattern <:+: text := by
  obtain ⟨position, hoccurs⟩ := isInfix_iff_exists_occursAt.mp h
  exact ((occursAt_append_iff (hfront position hoccurs)).mp hoccurs).isInfix

/-- Bytes behind the first occurrence do not matter. -/
theorem FirstOccurrence.append_right (h : FirstOccurrence pattern text position)
    (hpattern : pattern ≠ []) (after : Bytes) :
    FirstOccurrence pattern (text ++ after) position where
  occurs := by
    have hlength := h.occurs.length_le hpattern
    rw [OccursAt, List.drop_append_of_le_length (by omega)]
    exact h.occurs.trans (List.prefix_append _ _)
  first := by
    intro earlier hearlier hoccurs
    have hlength := h.occurs.length_le hpattern
    apply h.first earlier hearlier
    rw [OccursAt, List.drop_append_of_le_length (by omega)] at hoccurs
    refine List.prefix_of_prefix_length_le hoccurs (List.prefix_append _ _) ?_
    rw [List.length_drop]
    omega

/-- A separator of bytes which the pattern does not hold keeps what is before it from
completing the pattern. -/
theorem firstOccurrence_behind_separator {separator : Bytes}
    (hbefore : ¬ pattern <:+: before) (hne : separator ≠ [])
    (hseparator : ∀ b ∈ separator, b ∉ pattern) :
    FirstOccurrence pattern (before ++ separator ++ pattern ++ after)
      (before ++ separator).length where
  occurs := occursAt_length (before ++ separator) pattern after
  first := by
    intro earlier hearlier hoccurs
    rw [List.length_append] at hearlier
    have hpos := List.length_pos_iff.mpr hne
    by_cases hinside : earlier + pattern.length ≤ before.length
    · -- The pattern would end before the separator.
      apply hbefore
      have htake := hoccurs.isInfix_take
      rw [List.append_assoc, List.append_assoc, List.take_append_of_le_length hinside] at htake
      exact htake.trans (List.take_prefix _ _).isInfix
    · -- The pattern would hold a byte of the separator.
      have hbyte : ∃ offset, offset < pattern.length ∧ before.length ≤ earlier + offset ∧
          earlier + offset < before.length + separator.length := by
        by_cases hstart : before.length ≤ earlier
        · refine ⟨0, List.length_pos_iff.mpr ?_, hstart, hearlier⟩
          rintro rfl
          exact hbefore (List.nil_infix)
        · exact ⟨before.length - earlier, by omega, by omega, by omega⟩
      obtain ⟨offset, hoffset, hlow, hhigh⟩ := hbyte
      have hsame := hoccurs.getElem?_eq hoffset
      rw [List.append_assoc, List.append_assoc, List.getElem?_append_right hlow,
        List.getElem?_append_left (by omega), List.getElem?_eq_getElem hoffset] at hsame
      exact hseparator _ (List.mem_of_getElem? hsame) (List.getElem_mem hoffset)

/-- Matching one byte more of a pattern. -/
theorem take_succ_isSuffix_concat_iff {b : UInt8} {matched : Nat}
    (h : matched < pattern.length) :
    pattern.take (matched + 1) <:+ text ++ [b] ↔
      pattern[matched]? = some b ∧ pattern.take matched <:+ text := by
  rw [List.take_succ_eq_append_getElem h, List.getElem?_eq_getElem h,
    List.suffix_concat_iff]
  constructor
  · rintro (hnil | ⟨front, heq, hsuffix⟩)
    · exact absurd hnil
        (List.append_ne_nil_of_right_ne_nil _ (List.cons_ne_nil _ _))
    · obtain ⟨rfl, hb⟩ := List.append_inj' heq rfl
      exact ⟨by simpa using hb, hsuffix⟩
  · rintro ⟨hb, hsuffix⟩
    exact .inr ⟨_, by rw [Option.some.inj hb], hsuffix⟩

end Boundary

end StreamingHttp
