import StreamingHttp.Proofs.Header.LineReading
import Mathlib.Data.List.Forall2

/-!
# The fields which a parser has read

The parser keeps a field as spans of a block which grows.  This module relates
its entries to names and values:

* `Entry.Says`: the entry has this name and this value, and keeps them whatever
  the block is extended by;
* `Entry.Collects`: the entry has this name, and its value is made of these
  texts so far; a gap follows it up to the end of the block.

An entry which collects texts says their join.  A continuation adds its text, and one
of blanks alone only makes the gap longer.
-/

namespace StreamingHttp

namespace Header

/-- The entry has this name and this value. -/
def Entry.Says (entry : Entry) (block : Bytes) (header : Bytes × Bytes) : Prop :=
  (∃ after, entry.name.Marks block header.1 after) ∧
    ∃ raw after, entry.value.Marks block raw after ∧
      (if entry.folded then unfold raw else raw) = header.2

/-- The texts of a value which are not empty, as they arrive: the value is empty, or
a piece with further pieces behind gaps, and a gap follows it. -/
def Entry.CollectsPieces (entry : Entry) (block : Bytes) : List Bytes → Prop
  | [] => entry.folded = false ∧ ∃ after, entry.value.Marks block [] after
  | first :: later => IsPiece first ∧ first ≠ [] ∧
      ∃ folds gap, folds.map Fold.piece = later ∧
        (∀ fold ∈ folds, fold.IsProper) ∧ IsGap gap ∧
        entry.value.Marks block (foldedText first folds) gap ∧
        entry.folded = decide (folds ≠ [])

/-- The entry has this name, and its value is made of these texts so far. -/
def Entry.Collects (entry : Entry) (block name : Bytes) (texts : List Bytes) :
    Prop :=
  (∃ after, entry.name.Marks block name after) ∧
    entry.CollectsPieces block (texts.filter (· ≠ []))

/-! ### Gaps -/

theorem IsGap.append {gap other : Bytes} (h : IsGap gap)
    (hother : ∀ b ∈ other, Byte.isBlank b = true ∨ Byte.isLineEnd b = true) :
    IsGap (gap ++ other) := by
  refine ⟨fun b hb => ?_, List.mem_append_left _ h.2⟩
  rcases List.mem_append.mp hb with hmem | hmem
  · exact h.1 b hmem
  · exact hother b hmem

/-! ### Values -/

theorem joined_cons_pieces (first : Bytes) (folds : List Fold) :
    [Byte.space].intercalate (first :: folds.map Fold.piece) =
      joinedText first folds := by
  induction folds generalizing first with
  | nil => simp [joinedText]
  | cons fold folds ih =>
      rw [List.map_cons, List.intercalate_cons_cons, ih]
      simp [joinedText]

/-- What the entry says if nothing continues it. -/
theorem Entry.Collects.says {entry : Entry} {block name : Bytes}
    {texts : List Bytes} (h : entry.Collects block name texts) :
    entry.Says block (name, joined texts) := by
  obtain ⟨hname, hvalue⟩ := h
  refine ⟨hname, ?_⟩
  unfold joined
  generalize texts.filter (· ≠ []) = pieces at hvalue ⊢
  cases pieces with
  | nil =>
      obtain ⟨hfolded, after, hmarks⟩ := hvalue
      exact ⟨[], after, hmarks, by simp [hfolded]⟩
  | cons first later =>
      obtain ⟨hfirst, -, folds, gap, rfl, hfolds, -, hmarks, hfolded⟩ := hvalue
      refine ⟨foldedText first folds, gap, hmarks, ?_⟩
      rw [joined_cons_pieces, hfolded]
      cases folds with
      | nil => simp [foldedText, joinedText]
      | cons fold folds =>
          rw [if_pos (by simp)]
          exact unfold_foldedText hfirst hfolds

/-- What an entry says does not change when the block grows. -/
theorem Entry.Says.append {entry : Entry} {block : Bytes} {header : Bytes × Bytes}
    (h : entry.Says block header) (line : Bytes) :
    entry.Says (block ++ line) header := by
  obtain ⟨⟨after, hname⟩, raw, rest, hvalue, heq⟩ := h
  exact ⟨⟨_, hname.append line⟩, raw, _, hvalue.append line, heq⟩

/-! ### Continuations -/

/-- A continuation of nothing but blanks only makes the gap longer. -/
theorem Entry.Collects.append_blanks {entry : Entry} {block name : Bytes}
    {texts : List Bytes} (h : entry.Collects block name texts) {line : Bytes}
    (hline : ∀ b ∈ line, Byte.isBlank b = true ∨ Byte.isLineEnd b = true) :
    entry.Collects (block ++ line) name (texts ++ [[]]) := by
  obtain ⟨⟨after, hname⟩, hvalue⟩ := h
  refine ⟨⟨_, hname.append line⟩, ?_⟩
  rw [List.filter_append, show [[]].filter (fun text : Bytes => text ≠ []) = []
    from rfl, List.append_nil]
  generalize texts.filter (· ≠ []) = pieces at hvalue ⊢
  cases pieces with
  | nil =>
      obtain ⟨hfolded, after, hmarks⟩ := hvalue
      exact ⟨hfolded, _, hmarks.append line⟩
  | cons first later =>
      obtain ⟨hfirst, hne, folds, gap, hlater, hfolds, hgap, hmarks, hfolded⟩ :=
        hvalue
      exact ⟨hfirst, hne, folds, gap ++ line, hlater, hfolds, hgap.append hline,
        hmarks.append line, hfolded⟩

/-- A continuation with a text extends the value by it. -/
theorem Entry.Collects.extend {entry : Entry} {block name : Bytes}
    {texts : List Bytes} (h : entry.Collects block name texts)
    {line indent piece gap : Bytes} (hline : line = indent ++ piece ++ gap)
    (hindent : ∀ b ∈ indent, Byte.isBlank b = true) (hgap : IsGap gap)
    (hpiece : IsPiece piece) (hne : piece ≠ []) :
    (entry.extend ⟨block.length + indent.length,
        block.length + indent.length + piece.length⟩).Collects
      (block ++ line) name (texts ++ [piece]) := by
  obtain ⟨⟨after, hname⟩, hvalue⟩ := h
  refine ⟨⟨after ++ line, ?_⟩, ?_⟩
  · have := hname.append line
    unfold Entry.extend
    split <;> exact this
  rw [List.filter_append, show [piece].filter (fun text : Bytes => text ≠ []) =
    [piece] by simp [hne]]
  generalize texts.filter (· ≠ []) = pieces at hvalue ⊢
  cases pieces with
  | nil =>
      -- The value was empty, so the new text takes its place and is no fold.
      obtain ⟨hfolded, after, hmarks⟩ := hvalue
      refine ⟨hpiece, hne, [], gap, rfl, by simp, hgap, ?_, ?_⟩
      · rw [Entry.extend, if_pos (by rw [hmarks.isEmpty_eq]; rfl)]
        exact ⟨block ++ indent, by simp [hline, foldedText],
          by simp [foldedText]⟩
      · rw [Entry.extend, if_pos (by rw [hmarks.isEmpty_eq]; rfl)]
        simpa using hfolded
  | cons first later =>
      obtain ⟨hfirst, hfirstNe, folds, before, rfl, hfolds, hbefore, hmarks,
        hfolded⟩ := hvalue
      have hisEmpty : entry.value.isEmpty = false := by
        rw [hmarks.isEmpty_eq]
        simp [foldedText, hfirstNe]
      -- The gap before the text and its indentation are one gap.
      refine ⟨hfirst, hfirstNe, folds ++ [⟨before ++ indent, piece⟩], gap,
        by simp, ?_, hgap, ?_, ?_⟩
      · intro fold hfold
        rcases List.mem_append.mp hfold with hmem | hmem
        · exact hfolds fold hmem
        · rw [List.mem_singleton.mp hmem]
          exact ⟨hbefore.append fun b hb => .inl (hindent b hb), hpiece, hne⟩
      · rw [Entry.extend, if_neg (by simp [hisEmpty]), foldedText_concat]
        exact hmarks.extend hline rfl
      · rw [Entry.extend, if_neg (by simp [hisEmpty])]
        simp

end Header

end StreamingHttp
