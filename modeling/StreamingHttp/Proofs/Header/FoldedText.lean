import StreamingHttp.Header.Fold
import Mathlib.Data.List.Basic
import Mathlib.Data.List.Induction

/-!
# Unfolding a folded value

A folded value is a first piece and further pieces, each after a *gap*: blanks
and line ends, with one line feed at least.  Pieces hold no line end and neither
start nor end with a blank.  Unfolding replaces every gap by one space and changes
nothing else.

While a gap is read, the blanks before its first line feed are written and removed
again.  So the invariant is about the bytes under them: they do not start (newest
byte first) with a blank.

Values which do not have this shape are unfolded too.  Whatever the raw value is, the bytes
which are neither blanks nor line ends stay as they are and in their order, no line end is
left, and nothing changes in a value without line ends.
-/

namespace StreamingHttp

namespace Header

/-- What separates the pieces of a folded value. -/
def IsGap (gap : Bytes) : Prop :=
  (∀ b ∈ gap, Byte.isBlank b = true ∨ Byte.isLineEnd b = true) ∧ Byte.lf ∈ gap

/-- A piece of a folded value. -/
structure IsPiece (piece : Bytes) : Prop where
  isLineEnd_eq_false : ∀ b ∈ piece, Byte.isLineEnd b = false
  head_not_blank : ∀ b ∈ piece.head?, Byte.isBlank b = false
  last_not_blank : ∀ b ∈ piece.getLast?, Byte.isBlank b = false

/-- A further line of a folded value. -/
structure Fold where
  gap : Bytes
  piece : Bytes
  deriving DecidableEq, Repr

/-- A fold with a gap and with a piece which is not empty. -/
structure Fold.IsProper (fold : Fold) : Prop where
  gap : IsGap fold.gap
  piece : IsPiece fold.piece
  piece_ne_nil : fold.piece ≠ []

/-- A value over several lines, as it arrives. -/
def foldedText (first : Bytes) (folds : List Fold) : Bytes :=
  first ++ folds.flatMap fun fold => fold.gap ++ fold.piece

/-- A value over several lines, as it is meant. -/
def joinedText (first : Bytes) (folds : List Fold) : Bytes :=
  first ++ folds.flatMap fun fold => Byte.space :: fold.piece

theorem foldedText_concat (first : Bytes) (folds : List Fold) (fold : Fold) :
    foldedText first (folds ++ [fold]) =
      foldedText first folds ++ fold.gap ++ fold.piece := by
  simp [foldedText]

theorem joinedText_concat (first : Bytes) (folds : List Fold) (fold : Fold) :
    joinedText first (folds ++ [fold]) =
      joinedText first folds ++ Byte.space :: fold.piece := by
  simp [joinedText]

namespace Unfolding

theorem push_of_isLineEnd_eq_false {b : UInt8} (h : Byte.isLineEnd b = false)
    (written : Bytes) : push ⟨written, false⟩ b = ⟨b :: written, false⟩ := by
  simp only [Byte.isLineEnd, Bool.or_eq_false_iff, beq_eq_false_iff_ne] at h
  simp [push, h.1, h.2]

/-- Bytes which are no line end are written. -/
theorem foldl_push_text {text : Bytes}
    (h : ∀ b ∈ text, Byte.isLineEnd b = false) (written : Bytes) :
    text.foldl push ⟨written, false⟩ = ⟨text.reverse ++ written, false⟩ := by
  induction text generalizing written with
  | nil => rfl
  | cons b text ih =>
      rw [List.foldl_cons, push_of_isLineEnd_eq_false (h b (by simp)),
        ih fun other hother => h other (by simp [hother])]
      simp

/-- A piece ends the skipping of blanks, because it does not start with one. -/
theorem foldl_push_piece {piece : Bytes} (h : IsPiece piece) (hne : piece ≠ [])
    (written : Bytes) :
    piece.foldl push ⟨written, true⟩ = ⟨piece.reverse ++ written, false⟩ := by
  obtain ⟨b, rest, rfl⟩ := List.exists_cons_of_ne_nil hne
  have hblank : Byte.isBlank b = false := h.head_not_blank b (by simp)
  have hend : Byte.isLineEnd b = false := h.isLineEnd_eq_false b (by simp)
  have hfirst : push ⟨written, true⟩ b = ⟨b :: written, false⟩ := by
    simp only [Byte.isLineEnd, Bool.or_eq_false_iff, beq_eq_false_iff_ne] at hend
    simp [push, hend.1, hend.2, hblank]
  rw [List.foldl_cons, hfirst,
    foldl_push_text fun other hother => h.isLineEnd_eq_false other (by simp [hother])]
  simp

/-- Blanks under which nothing blank is written are removed as a whole. -/
theorem dropWhile_blanks_append {blanks written : Bytes}
    (hblanks : ∀ b ∈ blanks, Byte.isBlank b = true)
    (hwritten : ∀ b ∈ written.head?, Byte.isBlank b = false) :
    (blanks ++ written).dropWhile Byte.isBlank = written := by
  rw [List.dropWhile_append_of_pos hblanks]
  cases written with
  | nil => rfl
  | cons b rest => simp [hwritten b (by simp)]

/-- After the first line feed of a gap the rest of it changes nothing: further
line feeds write the same space again. -/
theorem foldl_push_gap_rest {gap written : Bytes}
    (hgap : ∀ b ∈ gap, Byte.isBlank b = true ∨ Byte.isLineEnd b = true)
    (hwritten : ∀ b ∈ written.head?, Byte.isBlank b = false) :
    gap.foldl push ⟨Byte.space :: written, true⟩ =
      ⟨Byte.space :: written, true⟩ := by
  induction gap with
  | nil => rfl
  | cons b gap ih =>
      have hstay : push ⟨Byte.space :: written, true⟩ b =
          ⟨Byte.space :: written, true⟩ := by
        by_cases hcr : b = Byte.cr
        · simp [push, hcr]
        by_cases hlf : b = Byte.lf
        · have hspace : ∀ b ∈ [Byte.space], Byte.isBlank b = true := by
            simp [Byte.isBlank]
          have := dropWhile_blanks_append hspace hwritten
          rw [List.singleton_append] at this
          simp [push, hlf, this]
        · have hblank : Byte.isBlank b = true := by
            rcases hgap b (by simp) with hblank | hend
            · exact hblank
            · simp [Byte.isLineEnd, hcr, hlf] at hend
          simp [push, hcr, hlf, hblank]
      rw [List.foldl_cons, hstay]
      exact ih fun other hother => hgap other (by simp [hother])

/-- A gap becomes one space.  `blanks` are those which it has written already. -/
theorem foldl_push_gap {gap blanks written : Bytes} (hgap : IsGap gap)
    (hblanks : ∀ b ∈ blanks, Byte.isBlank b = true)
    (hwritten : ∀ b ∈ written.head?, Byte.isBlank b = false) :
    gap.foldl push ⟨blanks ++ written, false⟩ =
      ⟨Byte.space :: written, true⟩ := by
  obtain ⟨hclass, hlf⟩ := hgap
  induction gap generalizing blanks with
  | nil => simp at hlf
  | cons b gap ih =>
      have hrest : ∀ other ∈ gap,
          Byte.isBlank other = true ∨ Byte.isLineEnd other = true :=
        fun other hother => hclass other (by simp [hother])
      rw [List.foldl_cons]
      -- The first line feed removes the blanks written before it.
      by_cases hbreak : b = Byte.lf
      · have hpush : push ⟨blanks ++ written, false⟩ b =
            ⟨Byte.space :: written, true⟩ := by
          rw [push, if_neg (by rw [hbreak]; decide), if_pos hbreak,
            dropWhile_blanks_append hblanks hwritten]
        rw [hpush]
        exact foldl_push_gap_rest hrest hwritten
      have hlater : Byte.lf ∈ gap := by
        simpa [Ne.symm hbreak] using hlf
      by_cases hcr : b = Byte.cr
      · rw [show push ⟨blanks ++ written, false⟩ b = ⟨blanks ++ written, false⟩
          by simp [push, hcr]]
        exact ih hblanks hrest hlater
      · have hblank : Byte.isBlank b = true := by
          rcases hclass b (by simp) with hblank | hend
          · exact hblank
          · simp [Byte.isLineEnd, hcr, hbreak] at hend
        rw [show push ⟨blanks ++ written, false⟩ b =
          ⟨(b :: blanks) ++ written, false⟩ by simp [push, hcr, hbreak]]
        refine ih ?_ hrest hlater
        intro other hother
        rcases List.mem_cons.mp hother with rfl | hmem
        · exact hblank
        · exact hblanks other hmem

/-- No line end is written. -/
theorem notMem_written_push {b : UInt8} (hb : Byte.isLineEnd b = true) {state : Unfolding}
    (h : b ∉ state.written) (next : UInt8) : b ∉ (state.push next).written := by
  unfold push
  split
  · exact h
  · next hcr =>
      split
      · rw [List.mem_cons, not_or]
        refine ⟨?_, fun hmem => h (List.dropWhile_suffix _ |>.mem hmem)⟩
        rintro rfl
        exact absurd hb (by decide)
      · next hlf =>
          split
          · exact h
          · rw [List.mem_cons, not_or]
            refine ⟨?_, h⟩
            rintro rfl
            simp [Byte.isLineEnd, hcr, hlf] at hb

end Unfolding

/-- No line end is left in an unfolded value, whatever the raw value is. -/
theorem notMem_unfold {b : UInt8} (hb : Byte.isLineEnd b = true) (raw : Bytes) :
    b ∉ unfold raw := by
  rw [unfold, List.mem_reverse]
  suffices hclean : ∀ state : Unfolding, b ∉ state.written →
      b ∉ (raw.foldl Unfolding.push state).written from hclean {} List.not_mem_nil
  induction raw with
  | nil => exact fun _ h => h
  | cons next raw ih => exact fun _ h => ih _ (Unfolding.notMem_written_push hb h next)

/-- The last byte of a value is no blank, because no piece ends with one. -/
theorem head?_reverse_joinedText {first : Bytes} (hfirst : IsPiece first)
    {folds : List Fold} (hfolds : ∀ fold ∈ folds, fold.IsProper) :
    ∀ b ∈ (joinedText first folds).reverse.head?, Byte.isBlank b = false := by
  intro b hb
  rw [List.head?_reverse] at hb
  rcases List.eq_nil_or_concat' folds with rfl | ⟨before, fold, rfl⟩
  · exact hfirst.last_not_blank b (by simpa [joinedText] using hb)
  · have hfold := hfolds fold (by simp)
    apply hfold.piece.last_not_blank b
    obtain ⟨text, last, hpiece⟩ :=
      (List.eq_nil_or_concat' fold.piece).resolve_left hfold.piece_ne_nil
    rw [joinedText_concat, hpiece,
      show joinedText first before ++ Byte.space :: (text ++ [last]) =
        joinedText first before ++ Byte.space :: text ++ [last] by simp,
      List.getLast?_concat] at hb
    rwa [hpiece, List.getLast?_concat]

/-- Unfolding replaces every gap by one space. -/
theorem unfold_foldedText {first : Bytes} (hfirst : IsPiece first)
    {folds : List Fold} (hfolds : ∀ fold ∈ folds, fold.IsProper) :
    unfold (foldedText first folds) = joinedText first folds := by
  suffices hstate : (foldedText first folds).foldl Unfolding.push {} =
      ⟨(joinedText first folds).reverse, false⟩ by
    rw [unfold, hstate, List.reverse_reverse]
  induction folds using List.reverseRecOn with
  | nil =>
      have := Unfolding.foldl_push_text hfirst.isLineEnd_eq_false []
      simpa [foldedText, joinedText] using this
  | append_singleton folds fold ih =>
      have hbefore : ∀ other ∈ folds, other.IsProper :=
        fun other hother => hfolds other (by simp [hother])
      have hfold := hfolds fold (by simp)
      rw [foldedText_concat, List.foldl_append, List.foldl_append, ih hbefore]
      rw [show (joinedText first folds).reverse =
        [] ++ (joinedText first folds).reverse from rfl,
        Unfolding.foldl_push_gap hfold.gap (by simp)
          (head?_reverse_joinedText hfirst hbefore),
        Unfolding.foldl_push_piece hfold.piece hfold.piece_ne_nil]
      simp [joinedText_concat]

/-! ### Every raw value -/

/-- Neither a blank nor a line end. -/
def isVisible (b : UInt8) : Bool :=
  !(Byte.isBlank b || Byte.isLineEnd b)

/-- Blanks which are removed are not visible. -/
theorem filter_dropWhile_isBlank (bytes : Bytes) :
    (bytes.dropWhile Byte.isBlank).filter isVisible = bytes.filter isVisible := by
  induction bytes with
  | nil => rfl
  | cons b bytes ih =>
      cases hb : Byte.isBlank b with
      | false => rw [List.dropWhile_cons_of_neg (by simp [hb])]
      | true =>
          have hhidden : isVisible b = false := by simp [isVisible, hb]
          rw [List.dropWhile_cons_of_pos hb, ih, List.filter_cons_of_neg (by simp [hhidden])]

/-- A visible byte is written, and no other byte changes what is visible. -/
theorem Unfolding.filter_written_push (state : Unfolding) (b : UInt8) :
    (state.push b).written.filter isVisible =
      [b].filter isVisible ++ state.written.filter isVisible := by
  unfold push
  split
  · next hcr => simp [hcr, isVisible, Byte.isLineEnd]
  split
  · next hlf =>
      have hspace : isVisible Byte.space = false := by decide
      rw [List.filter_cons_of_neg (by simp [hspace]), filter_dropWhile_isBlank]
      simp [hlf, isVisible, Byte.isLineEnd]
  split
  · next hskip =>
      have hblank : Byte.isBlank b = true := (Bool.and_eq_true _ _ ▸ hskip).2
      simp [isVisible, hblank]
  · rw [← List.singleton_append, List.filter_append]

/-- What is visible of a raw value stays as it is. -/
theorem filter_unfold (raw : Bytes) :
    (unfold raw).filter isVisible = raw.filter isVisible := by
  suffices hstate : ∀ state : Unfolding,
      ((raw.foldl Unfolding.push state).written.reverse).filter isVisible =
        state.written.reverse.filter isVisible ++ raw.filter isVisible from hstate {}
  induction raw with
  | nil => simp
  | cons b raw ih =>
      intro state
      have hvisible : (b :: raw).filter isVisible = [b].filter isVisible ++ raw.filter isVisible :=
        List.filter_append [b] raw
      rw [List.foldl_cons, ih, List.filter_reverse, Unfolding.filter_written_push,
        List.reverse_append, ← List.filter_reverse, ← List.filter_reverse, List.reverse_singleton,
        hvisible, List.append_assoc]

/-- A value is changed if and only if it holds a line end. -/
theorem unfold_eq_self_iff {raw : Bytes} :
    unfold raw = raw ↔ Byte.cr ∉ raw ∧ Byte.lf ∉ raw := by
  constructor
  · intro h
    rw [← h]
    exact ⟨notMem_unfold (by decide) raw, notMem_unfold (by decide) raw⟩
  · rintro ⟨hcr, hlf⟩
    have hclean : ∀ b ∈ raw, Byte.isLineEnd b = false := by
      intro b hb
      rw [Byte.isLineEnd, Bool.or_eq_false_iff, beq_eq_false_iff_ne, beq_eq_false_iff_ne]
      exact ⟨fun h => hcr (h ▸ hb), fun h => hlf (h ▸ hb)⟩
    rw [unfold, Unfolding.foldl_push_text hclean []]
    simp

/-- Unfolding puts one space for every gap of a folded value.  Of any raw value whatsoever it
leaves no line end and keeps all visible bytes, and it changes the value only if there is a
line end in it. -/
theorem unfold_replaces_gaps :
    (∀ (first : Bytes) (folds : List Fold), IsPiece first → (∀ fold ∈ folds, fold.IsProper) →
      unfold (foldedText first folds) = joinedText first folds) ∧
      ∀ raw : Bytes, (Byte.cr ∉ unfold raw ∧ Byte.lf ∉ unfold raw) ∧
        (unfold raw).filter isVisible = raw.filter isVisible ∧
        (unfold raw = raw ↔ Byte.cr ∉ raw ∧ Byte.lf ∉ raw) :=
  ⟨fun _ _ hfirst hfolds => unfold_foldedText hfirst hfolds, fun raw =>
    ⟨⟨notMem_unfold (by decide) raw, notMem_unfold (by decide) raw⟩, filter_unfold raw,
      unfold_eq_self_iff⟩⟩

/-- A value whose first piece is empty.  The next one holds blanks, which are kept, and line
ends stand in the gaps in any order. -/
theorem unfold_replaces_gaps_behind_empty_piece :
    let piece : Bytes := [0x61, Byte.space, Byte.tab, 0x62]
    let folds : List Fold :=
      [⟨[Byte.cr, Byte.lf, Byte.tab], piece⟩,
        ⟨[Byte.space, Byte.lf, Byte.cr, Byte.space, Byte.lf], [0x63]⟩]
    (IsPiece [] ∧ ∀ fold ∈ folds, fold.IsProper) ∧
      unfold (foldedText [] folds) = Byte.space :: piece ++ [Byte.space, 0x63] := by
  intro piece folds
  have hfirst : IsPiece [] := ⟨by simp, by simp, by simp⟩
  have hfolds : ∀ fold ∈ folds, fold.IsProper := by
    intro fold hfold
    simp only [folds, piece, List.mem_cons, List.not_mem_nil, or_false] at hfold
    rcases hfold with rfl | rfl
    · exact ⟨⟨by simp [Byte.isBlank, Byte.isLineEnd], by simp⟩,
        ⟨by simp [Byte.isLineEnd, Byte.cr, Byte.lf, Byte.space, Byte.tab],
          by simp [Byte.isBlank, Byte.space, Byte.tab],
          by simp [Byte.isBlank, Byte.space, Byte.tab]⟩, by simp⟩
    · exact ⟨⟨by simp [Byte.isBlank, Byte.isLineEnd], by simp⟩,
        ⟨by simp [Byte.isLineEnd, Byte.cr, Byte.lf], by simp [Byte.isBlank, Byte.space, Byte.tab],
          by simp [Byte.isBlank, Byte.space, Byte.tab]⟩, by simp⟩
  exact ⟨⟨hfirst, hfolds⟩, unfold_replaces_gaps.1 [] folds hfirst hfolds⟩

end Header

end StreamingHttp
