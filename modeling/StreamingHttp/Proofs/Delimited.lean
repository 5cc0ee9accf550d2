import StreamingHttp.Delimited
import Mathlib.Data.List.TakeWhile

/-!
# Cutting at a delimiter

Cutting at the first delimiter is the inverse of writing a delimiter behind a
text which holds none.  Cutting at the last one is the inverse of writing a delimiter
before such a text.  Cutting at every delimiter is cutting at the first one, again and
again.

`upTo` and `behind` are the two sides of the first delimiter, and the second is empty if
there is none.
-/

namespace StreamingHttp

namespace Delimited

variable {α : Type} [BEq α] [LawfulBEq α] {delimiter : α}
  {text before after : List α}

/-- What precedes the first delimiter; all of a text which holds none. -/
def upTo (delimiter : α) (text : List α) : List α :=
  text.takeWhile (· != delimiter)

/-- What follows the first delimiter; nothing in a text which holds none. -/
def behind (delimiter : α) (text : List α) : List α :=
  (text.dropWhile (· != delimiter)).tail

omit [LawfulBEq α] in
theorem cut_fst (delimiter : α) (text : List α) :
    (cut delimiter text).1 = upTo delimiter text :=
  rfl

omit [LawfulBEq α] in
theorem getD_cut_snd (delimiter : α) (text : List α) :
    (cut delimiter text).2.getD [] = behind delimiter text := by
  rw [cut, behind]
  cases text.dropWhile (· != delimiter) <;> rfl

theorem notMem_cut_fst (delimiter : α) (text : List α) :
    delimiter ∉ (cut delimiter text).1 := by
  intro hmem
  have := List.mem_takeWhile_imp hmem
  simp at this

/-- Nothing but the delimiter is lost. -/
theorem eq_of_cut_eq_some (h : cut delimiter text = (before, some after)) :
    text = before ++ delimiter :: after ∧ delimiter ∉ before := by
  have hbefore := notMem_cut_fst delimiter text
  rw [h] at hbefore
  refine ⟨?_, hbefore⟩
  rw [cut, Prod.mk.injEq] at h
  obtain ⟨rfl, hafter⟩ := h
  cases hdrop : text.dropWhile (· != delimiter) with
  | nil => simp [hdrop] at hafter
  | cons first rest =>
      have hfirst := List.head?_dropWhile_not (· != delimiter) text
      have hsplit := List.takeWhile_append_dropWhile
        (p := (· != delimiter)) (l := text)
      rw [hdrop] at hfirst hafter hsplit
      have : first = delimiter := by simpa using hfirst
      rw [← hsplit]
      simp_all

omit [LawfulBEq α] in
theorem eq_of_cut_eq_none (h : cut delimiter text = (before, none)) :
    text = before := by
  rw [cut, Prod.mk.injEq] at h
  obtain ⟨rfl, hafter⟩ := h
  have hsplit := List.takeWhile_append_dropWhile
    (p := (· != delimiter)) (l := text)
  cases hdrop : text.dropWhile (· != delimiter) with
  | nil => simpa [hdrop] using hsplit.symm
  | cons first rest => simp [hdrop] at hafter

theorem cut_append_cons (h : delimiter ∉ before) (after : List α) :
    cut delimiter (before ++ delimiter :: after) = (before, some after) := by
  have hbefore : ∀ a ∈ before, (a != delimiter) = true := by
    intro a ha
    simpa using fun heq : a = delimiter => h (heq ▸ ha)
  rw [cut, List.takeWhile_append_of_pos hbefore,
    List.dropWhile_append_of_pos hbefore]
  simp

/-- A delimiter and what follows it, or neither. -/
def suffix (delimiter : α) : Option (List α) → List α
  | none => []
  | some text => delimiter :: text

omit [BEq α] [LawfulBEq α] in
theorem mem_suffix {a : α} {after : Option (List α)} :
    a ∈ suffix delimiter after ↔ ∃ text, after = some text ∧ (a = delimiter ∨ a ∈ text) := by
  cases after with
  | none => simp [suffix]
  | some text => simp [suffix]

theorem cut_append_suffix (h : delimiter ∉ before) (after : Option (List α)) :
    cut delimiter (before ++ suffix delimiter after) = (before, after) := by
  cases after with
  | none =>
      have hbefore : ∀ a ∈ before, (a != delimiter) = true := by
        intro a ha
        simpa using fun heq : a = delimiter => h (heq ▸ ha)
      rw [suffix, List.append_nil, cut, List.takeWhile_eq_self_iff.mpr hbefore,
        List.dropWhile_eq_nil_iff.mpr hbefore]
      rfl
  | some text => exact cut_append_cons h text

theorem upTo_append_cons (h : delimiter ∉ before) (after : List α) :
    upTo delimiter (before ++ delimiter :: after) = before := by
  rw [← cut_fst, cut_append_cons h]

theorem behind_append_cons (h : delimiter ∉ before) (after : List α) :
    behind delimiter (before ++ delimiter :: after) = after := by
  rw [← getD_cut_snd, cut_append_cons h, Option.getD_some]

theorem cut_of_notMem (h : delimiter ∉ text) : cut delimiter text = (text, none) := by
  have hcut := cut_append_suffix h none
  rwa [suffix, List.append_nil] at hcut

theorem upTo_of_notMem (h : delimiter ∉ text) : upTo delimiter text = text := by
  rw [← cut_fst, cut_of_notMem h]

theorem behind_of_notMem (h : delimiter ∉ text) : behind delimiter text = [] := by
  rw [← getD_cut_snd, cut_of_notMem h, Option.getD_none]

/-- Every text is written around its first delimiter, if it holds one. -/
theorem exists_cut (delimiter : α) (text : List α) :
    ∃ before after, text = before ++ suffix delimiter after ∧ delimiter ∉ before := by
  cases hcut : cut delimiter text with
  | mk before after =>
      cases after with
      | none =>
          have hbefore := notMem_cut_fst delimiter text
          rw [hcut] at hbefore
          refine ⟨before, none, ?_, hbefore⟩
          rw [suffix, List.append_nil, eq_of_cut_eq_none hcut]
      | some after => exact ⟨before, some after, eq_of_cut_eq_some hcut⟩

/-- The same for the last delimiter: what is before it may hold others. -/
theorem cutLast_append_suffix {after : Option (List α)}
    (hbefore : after = none → delimiter ∉ before)
    (hafter : ∀ text, after = some text → delimiter ∉ text) :
    cutLast delimiter (before ++ suffix delimiter after) = (before, after) := by
  cases after with
  | none =>
      have hreverse : delimiter ∉ before.reverse := by simpa using hbefore rfl
      rw [suffix, List.append_nil, cutLast, cut_of_notMem hreverse]
  | some text =>
      have hlast : delimiter ∉ text.reverse := by simpa using hafter text rfl
      have hcut := cut_append_cons hlast before.reverse
      have hreverse : (before ++ suffix delimiter (some text)).reverse =
          text.reverse ++ delimiter :: before.reverse := by
        simp [suffix]
      rw [cutLast, hreverse, hcut]
      simp

/-- Every text is written around its last delimiter, if it holds one. -/
theorem exists_cutLast (delimiter : α) (text : List α) :
    ∃ before after, text = before ++ suffix delimiter after ∧
      (after = none → delimiter ∉ before) ∧ ∀ last, after = some last → delimiter ∉ last := by
  obtain ⟨last, front, htext, hlast⟩ := exists_cut delimiter text.reverse
  rw [List.reverse_eq_iff] at htext
  rw [← List.mem_reverse] at hlast
  cases front with
  | none =>
      refine ⟨last.reverse, none, ?_, fun _ => hlast, by rintro _ ⟨⟩⟩
      rw [htext]
      simp [suffix]
  | some front =>
      refine ⟨front.reverse, some last.reverse, ?_, by rintro ⟨⟩, ?_⟩
      · rw [htext]
        simp [suffix]
      · rintro _ ⟨⟩
        exact hlast

/-- The pieces between all delimiters start with what precedes the first one. -/
theorem splitOn_eq_cut (delimiter : α) (text : List α) :
    text.splitOn delimiter =
      (cut delimiter text).1 ::
        ((cut delimiter text).2.map (·.splitOn delimiter)).getD [] := by
  cases hcut : cut delimiter text with
  | mk before after =>
      cases after with
      | none =>
          have hbefore : delimiter ∉ before := by
            simpa [hcut] using notMem_cut_fst delimiter text
          rw [eq_of_cut_eq_none hcut, List.splitOn_eq_singleton hbefore]
          rfl
      | some after =>
          obtain ⟨rfl, hbefore⟩ := eq_of_cut_eq_some hcut
          have hnone : ∀ a ∈ before, (a == delimiter) = false := by
            intro a ha
            simpa using fun heq : a = delimiter => hbefore (heq ▸ ha)
          rw [List.splitOn, List.splitOnP_append_cons_of_forall_mem hnone delimiter
            (by simp)]
          rfl

/-- A piece between delimiters stands in the text, and it holds no delimiter. -/
theorem of_mem_splitOn {piece : List α} (h : piece ∈ text.splitOn delimiter) :
    piece <:+: text ∧ delimiter ∉ piece := by
  induction hlength : text.length using Nat.strong_induction_on generalizing text with
  | _ length ih =>
      obtain ⟨before, after, rfl, hbefore⟩ := exists_cut delimiter text
      rw [splitOn_eq_cut, cut_append_suffix hbefore] at h
      rcases List.mem_cons.mp h with rfl | hlater
      · exact ⟨(List.prefix_append _ _).isInfix, hbefore⟩
      · cases after with
        | none => cases hlater
        | some after =>
            rw [suffix, List.length_append, List.length_cons] at hlength
            obtain ⟨hstands, hpiece⟩ := ih after.length (by omega) hlater rfl
            have hbehind : after <:+ before ++ delimiter :: after :=
              (List.suffix_cons _ _).trans (List.suffix_append _ _)
            exact ⟨hstands.trans hbehind.isInfix, hpiece⟩

theorem splitOn_append_cons (h : delimiter ∉ before) (after : List α) :
    (before ++ delimiter :: after).splitOn delimiter = before :: after.splitOn delimiter := by
  rw [splitOn_eq_cut, cut_append_cons h]
  rfl

theorem splitOn_append_suffix (h : delimiter ∉ before) (after : Option (List α)) :
    (before ++ suffix delimiter after).splitOn delimiter =
      before :: (after.map (·.splitOn delimiter)).getD [] := by
  rw [splitOn_eq_cut, cut_append_suffix h]

/-- Pieces which are written each behind a delimiter are found one after the other. -/
theorem splitOn_append_pieces {pieces : List (List α)} (h : delimiter ∉ before)
    (hpieces : ∀ piece ∈ pieces, delimiter ∉ piece) (after : List α) :
    (before ++ (pieces.flatMap (delimiter :: ·) ++ delimiter :: after)).splitOn delimiter =
      before :: (pieces ++ after.splitOn delimiter) := by
  induction pieces generalizing before with
  | nil => exact splitOn_append_cons h after
  | cons piece pieces ih =>
      rw [List.forall_mem_cons] at hpieces
      rw [List.flatMap_cons, List.cons_append, List.cons_append, List.append_assoc,
        splitOn_append_cons h, ih hpieces.1 hpieces.2, List.cons_append]

/-- A text is its first piece, and each other piece behind a delimiter. -/
theorem eq_append_of_splitOn_eq_cons {first : List α} {pieces : List (List α)}
    (h : text.splitOn delimiter = first :: pieces) :
    text = first ++ pieces.flatMap (delimiter :: ·) := by
  have hjoined : [delimiter].intercalate (text.splitOn delimiter) = text :=
    List.intercalate_splitOn delimiter
  rw [h] at hjoined
  rw [← hjoined]
  clear h hjoined
  induction pieces generalizing first with
  | nil => simp
  | cons piece pieces ih =>
      rw [List.intercalate_cons_cons, ih, List.flatMap_cons, List.append_assoc,
        List.singleton_append, List.cons_append]

omit [BEq α] [LawfulBEq α] in
/-- Pieces which are written each behind a delimiter are one text behind a delimiter, or
nothing. -/
theorem exists_suffix_eq_flatMap (delimiter : α) (pieces : List (List α)) :
    ∃ after, pieces.flatMap (delimiter :: ·) = suffix delimiter after := by
  cases pieces with
  | nil => exact ⟨none, rfl⟩
  | cons piece pieces => exact ⟨some (piece ++ pieces.flatMap (delimiter :: ·)), rfl⟩

end Delimited

end StreamingHttp
