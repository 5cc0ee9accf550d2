import StreamingHttp.Proofs.Bytes
import Mathlib.Data.List.DropRight
import Mathlib.Data.List.Induction

/-!
# What trimming leaves

Trimming a class of bytes cuts a byte string in parts: what is trimmed off holds
members of the class only, and what is left neither ends nor, if both ends are
trimmed, starts with one.
-/

namespace StreamingHttp

namespace Bytes

variable {p : UInt8 → Bool}

theorem trimEnd_eq_rdropWhile (p : UInt8 → Bool) (bytes : Bytes) :
    trimEnd p bytes = List.rdropWhile p bytes :=
  rfl

/-- What is trimmed off the end holds members of the class only. -/
theorem exists_trimEnd_append (p : UInt8 → Bool) (bytes : Bytes) :
    ∃ back, bytes = trimEnd p bytes ++ back ∧ ∀ b ∈ back, p b = true := by
  refine ⟨List.rtakeWhile p bytes, ?_, fun b hb => List.mem_rtakeWhile_imp hb⟩
  rw [trimEnd_eq_rdropWhile, List.rdropWhile_append_rtakeWhile]

/-- Members of the class at the end do not count. -/
theorem trimEnd_append_of_forall {back : Bytes} (h : ∀ b ∈ back, p b = true)
    (bytes : Bytes) : trimEnd p (bytes ++ back) = trimEnd p bytes := by
  rw [trimEnd, trimEnd, List.reverse_append,
    List.dropWhile_append_of_pos (by simpa using h)]

theorem eq_false_of_mem_head?_dropWhile {bytes : Bytes} :
    ∀ b ∈ (bytes.dropWhile p).head?, p b = false := by
  intro b hb
  have hhead := List.head?_dropWhile_not p bytes
  rwa [Option.mem_def.mp hb] at hhead

theorem eq_false_of_mem_getLast?_trimEnd (bytes : Bytes) :
    ∀ b ∈ (trimEnd p bytes).getLast?, p b = false := by
  intro b hb
  rw [trimEnd, List.getLast?_reverse] at hb
  exact eq_false_of_mem_head?_dropWhile b hb

theorem trimEnd_eq_nil_iff {bytes : Bytes} :
    trimEnd p bytes = [] ↔ ∀ b ∈ bytes, p b = true := by
  rw [trimEnd_eq_rdropWhile, List.rdropWhile_eq_nil_iff]

theorem trimEnd_ne_nil_iff {bytes : Bytes} :
    trimEnd p bytes ≠ [] ↔ ∃ b ∈ bytes, p b = false := by
  rw [ne_eq, trimEnd_eq_nil_iff]
  simp

/-- Bytes which are not all trimmed off start as they did. -/
theorem head?_trimEnd {bytes : Bytes} (h : trimEnd p bytes ≠ []) :
    (trimEnd p bytes).head? = bytes.head? := by
  obtain ⟨back, hback, -⟩ := exists_trimEnd_append p bytes
  conv_rhs => rw [hback]
  rw [List.head?_append_of_ne_nil _ h]

theorem trimEnd_eq_self {bytes : Bytes} (h : ∀ b ∈ bytes.getLast?, p b = false) :
    trimEnd p bytes = bytes := by
  rw [trimEnd_eq_rdropWhile, List.rdropWhile_eq_self_iff]
  intro hne
  rw [h _ (List.getLast?_eq_getLast_of_ne_nil hne)]
  simp

theorem trimEnd_trimEnd (bytes : Bytes) : trimEnd p (trimEnd p bytes) = trimEnd p bytes :=
  trimEnd_eq_self (eq_false_of_mem_getLast?_trimEnd bytes)

/-- Trimming looks at the bytes of the byte string only. -/
theorem trimEnd_congr {q : UInt8 → Bool} {bytes : Bytes}
    (h : ∀ b ∈ bytes, p b = q b) : trimEnd p bytes = trimEnd q bytes := by
  induction bytes using List.reverseRecOn with
  | nil => rfl
  | append_singleton bytes b ih =>
      have hlast : p b = q b := h b (by simp)
      have hbefore := ih fun other hother => h other (by simp [hother])
      rw [trimEnd_eq_rdropWhile, trimEnd_eq_rdropWhile] at hbefore ⊢
      rw [List.rdropWhile_concat, List.rdropWhile_concat, hlast, hbefore]

theorem trim_congr {q : UInt8 → Bool} {bytes : Bytes} (h : ∀ b ∈ bytes, p b = q b) :
    trim p bytes = trim q bytes := by
  have hmem : ∀ b ∈ (trimEnd q bytes).reverse, p b = q b := by
    intro b hb
    obtain ⟨back, hback, -⟩ := exists_trimEnd_append q bytes
    apply h
    rw [hback]
    exact List.mem_append_left _ (List.mem_reverse.mp hb)
  rw [trim, trim, trimEnd_congr h]
  generalize trimEnd q bytes = kept at hmem
  have hstart := trimEnd_congr hmem
  rwa [trimEnd, trimEnd, List.reverse_reverse, List.reverse_inj] at hstart

/-- What is trimmed off the start holds members of the class only. -/
theorem exists_append_dropWhile (p : UInt8 → Bool) (bytes : Bytes) :
    ∃ front, bytes = front ++ bytes.dropWhile p ∧ ∀ b ∈ front, p b = true :=
  ⟨bytes.takeWhile p, List.takeWhile_append_dropWhile.symm,
    fun _ hb => List.mem_takeWhile_imp hb⟩

theorem eq_false_of_mem_head?_trim {bytes : Bytes} :
    ∀ b ∈ (trim p bytes).head?, p b = false :=
  eq_false_of_mem_head?_dropWhile

theorem eq_false_of_mem_getLast?_trim {bytes : Bytes} :
    ∀ b ∈ (trim p bytes).getLast?, p b = false := by
  intro b hb
  obtain ⟨front, hfront, -⟩ := exists_append_dropWhile p (trimEnd p bytes)
  apply eq_false_of_mem_getLast?_trimEnd bytes b
  rw [hfront, List.getLast?_append]
  show ((trim p bytes).getLast?.or _) = some b
  rw [Option.mem_def.mp hb]
  rfl

theorem mem_of_mem_trimEnd {bytes : Bytes} {b : UInt8} (h : b ∈ trimEnd p bytes) :
    b ∈ bytes := by
  obtain ⟨back, hback, -⟩ := exists_trimEnd_append p bytes
  rw [hback]
  exact List.mem_append_left _ h

theorem mem_of_mem_trim {bytes : Bytes} {b : UInt8} (h : b ∈ trim p bytes) :
    b ∈ bytes :=
  mem_of_mem_trimEnd ((List.dropWhile_sublist p).mem h)

/-- What is left after trimming stands in the byte string. -/
theorem trim_isInfix (bytes : Bytes) : trim p bytes <:+: bytes := by
  obtain ⟨back, hback, -⟩ := exists_trimEnd_append p bytes
  exact (List.dropWhile_suffix p).isInfix.trans (List.IsPrefix.isInfix ⟨back, hback.symm⟩)

/-- Nothing before a byte which is no member of the class is trimmed off the end. -/
theorem trimEnd_append_cons {b : UInt8} (hb : p b = false) (front back : Bytes) :
    trimEnd p (front ++ b :: back) = front ++ b :: trimEnd p back := by
  obtain ⟨tail, htail, hclass⟩ := exists_trimEnd_append p back
  have hlast : ∀ last ∈ (front ++ b :: trimEnd p back).getLast?, p last = false := by
    intro last hmem
    rw [List.getLast?_append, List.getLast?_cons] at hmem
    have hmem' : (trimEnd p back).getLast?.getD b = last := by simpa using hmem
    cases hback : (trimEnd p back).getLast? with
    | none =>
        rw [hback] at hmem'
        rwa [← hmem']
    | some other =>
        rw [hback] at hmem'
        rw [← hmem']
        exact eq_false_of_mem_getLast?_trimEnd back other hback
  conv_lhs => rw [htail]
  rw [← List.cons_append, ← List.append_assoc, trimEnd_append_of_forall hclass,
    trimEnd_eq_self hlast]

theorem trimEnd_cons {b : UInt8} (hb : p b = false) (bytes : Bytes) :
    trimEnd p (b :: bytes) = b :: trimEnd p bytes :=
  trimEnd_append_cons hb [] bytes

/-- Trimming twice is trimming once. -/
theorem trim_trimEnd (bytes : Bytes) : trim p (trimEnd p bytes) = trim p bytes := by
  rw [trim, trim, trimEnd_trimEnd]

/-- A member of the class at the start does not count. -/
theorem trim_cons_of_pos {b : UInt8} (hb : p b = true) (bytes : Bytes) :
    trim p (b :: bytes) = trim p bytes := by
  obtain ⟨tail, htail, hclass⟩ := exists_trimEnd_append p bytes
  have hlast := eq_false_of_mem_getLast?_trimEnd (p := p) bytes
  rw [trim, trim]
  generalize trimEnd p bytes = kept at htail hlast ⊢
  subst htail
  cases kept with
  | nil =>
      have hall : ∀ other ∈ b :: tail, p other = true := by
        simpa [hb] using hclass
      rw [List.nil_append, trimEnd_eq_nil_iff.mpr hall]
  | cons first rest =>
      rw [← List.cons_append, trimEnd_append_of_forall hclass, trimEnd_eq_self,
        List.dropWhile_cons_of_pos hb]
      simpa using hlast

/-- Bytes which neither start nor end with a member of the class stay as they are. -/
theorem trim_eq_self {bytes : Bytes} (hhead : ∀ b ∈ bytes.head?, p b = false)
    (hlast : ∀ b ∈ bytes.getLast?, p b = false) : trim p bytes = bytes := by
  rw [trim, trimEnd_eq_self hlast]
  cases bytes with
  | nil => rfl
  | cons b rest => rw [List.dropWhile_cons_of_neg (by simp [hhead b rfl])]

theorem trim_eq_self_iff {bytes : Bytes} :
    trim p bytes = bytes ↔
      (∀ b ∈ bytes.head?, p b = false) ∧ ∀ b ∈ bytes.getLast?, p b = false := by
  refine ⟨fun h => ?_, fun h => trim_eq_self h.1 h.2⟩
  rw [← h]
  exact ⟨eq_false_of_mem_head?_trim, eq_false_of_mem_getLast?_trim⟩

theorem trim_trim (bytes : Bytes) : trim p (trim p bytes) = trim p bytes :=
  trim_eq_self eq_false_of_mem_head?_trim eq_false_of_mem_getLast?_trim

/-- Two byte strings which are trimmed are trimmed when they are joined. -/
theorem trim_append {bytes other : Bytes} (h : trim p bytes = bytes)
    (hother : trim p other = other) : trim p (bytes ++ other) = bytes ++ other := by
  rw [trim_eq_self_iff] at h hother ⊢
  constructor
  · intro b hb
    rw [List.head?_append, Option.mem_def, Option.or_eq_some_iff] at hb
    rcases hb with hfirst | ⟨-, hsecond⟩
    · exact h.1 b hfirst
    · exact hother.1 b hsecond
  · intro b hb
    rw [List.getLast?_append, Option.mem_def, Option.or_eq_some_iff] at hb
    rcases hb with hsecond | ⟨-, hfirst⟩
    · exact hother.2 b hsecond
    · exact h.2 b hfirst

/-- Members of the class at the start do not count. -/
theorem trim_append_of_forall {front : Bytes} (h : ∀ b ∈ front, p b = true)
    (bytes : Bytes) : trim p (front ++ bytes) = trim p bytes := by
  induction front with
  | nil => rfl
  | cons b front ih =>
      rw [List.forall_mem_cons] at h
      rw [List.cons_append, trim_cons_of_pos h.1, ih h.2]

/-- What is between members of the class is left of the whole. -/
theorem trim_between {front back : Bytes} (hfront : ∀ b ∈ front, p b = true)
    (hback : ∀ b ∈ back, p b = true) (bytes : Bytes) :
    trim p (front ++ (bytes ++ back)) = trim p bytes := by
  rw [trim_append_of_forall hfront, trim, trimEnd_append_of_forall hback, ← trim]

/-- Bytes of which none is a member of the class are kept, whatever is behind them. -/
theorem trim_append_of_forall_not {kept : Bytes} (h : ∀ b ∈ kept, p b = false)
    (hne : kept ≠ []) (bytes : Bytes) : trim p (kept ++ bytes) = kept ++ trimEnd p bytes := by
  obtain ⟨front, last, rfl⟩ := (List.eq_nil_or_concat' kept).resolve_left hne
  have hlast : p last = false := h last (by simp)
  rw [trim, List.append_assoc, List.singleton_append, trimEnd_append_cons hlast]
  cases front with
  | nil => exact List.dropWhile_cons_of_neg (by simp [hlast])
  | cons b front =>
      have hb : p b = false := h b (by simp)
      rw [List.cons_append, List.dropWhile_cons_of_neg (by simp [hb])]
      simp

/-- What is left stands between members of the class. -/
theorem exists_between (p : UInt8 → Bool) (bytes : Bytes) :
    ∃ front back, bytes = front ++ (trim p bytes ++ back) ∧ (∀ b ∈ front, p b = true) ∧
      ∀ b ∈ back, p b = true := by
  obtain ⟨back, hback, hbackClass⟩ := exists_trimEnd_append p bytes
  obtain ⟨front, hfront, hfrontClass⟩ := exists_append_dropWhile p (trimEnd p bytes)
  refine ⟨front, back, ?_, hfrontClass, hbackClass⟩
  rw [trim, ← List.append_assoc, ← hfront]
  exact hback

end Bytes

end StreamingHttp
