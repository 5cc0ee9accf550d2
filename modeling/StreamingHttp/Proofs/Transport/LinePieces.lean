import StreamingHttp.Proofs.Transport.LineEvents

/-!
# Lines read in pieces

What is read as a line is a *piece*: bytes up to a line feed, or as many of them as the
limit allows.  A piece tells nothing about where its line started, and a piece without a
line feed leaves its line open.

`Bytes.lastLine` is the line in which a text ends.  It starts behind the last line feed
before it, so it may be made of several pieces, the last of which is all that a reader of
lines sees of it.
-/

namespace StreamingHttp

namespace Bytes

/-- What is read as a line: it ends with its line feed or is as long as the limit. -/
structure IsLinePiece (limit : Nat) (piece : Bytes) : Prop where
  ne_nil : piece ≠ []
  inside : Byte.lf ∉ piece.dropLast
  length_le : piece.length ≤ limit
  full : piece.length = limit ∨ piece.getLast? = some Byte.lf

/-- As many bytes as the limit allows, without a line feed. -/
theorem IsLinePiece.take {limit : Nat} {text : Bytes} (hlimit : 0 < limit)
    (hlength : limit ≤ text.length) (htext : Byte.lf ∉ text) :
    IsLinePiece limit (text.take limit) := by
  have htake : (text.take limit).length = limit := List.length_take_of_le hlength
  refine ⟨?_, fun hmem => ?_, htake.le, .inl htake⟩
  · rwa [← List.length_pos_iff, htake]
  · exact htext (List.mem_of_mem_take ((List.dropLast_sublist _).mem hmem))

/-- A line which the limit allows is a piece. -/
theorem IsLine.isLinePiece {limit : Nat} {line : Bytes} (hline : IsLine line)
    (hlength : line.length ≤ limit) : IsLinePiece limit line := by
  obtain ⟨body, hbody, rfl⟩ := hline
  refine ⟨List.concat_ne_nil _ _, ?_, hlength, .inr List.getLast?_concat⟩
  rwa [List.dropLast_concat]

/-- A text starts with a piece, or it ends before one is whole. -/
theorem isLinePiece_append_or_short {limit : Nat} (hlimit : 0 < limit) (text : Bytes) :
    (∃ piece rest, IsLinePiece limit piece ∧ text = piece ++ rest) ∨
      Byte.lf ∉ text ∧ text.length < limit := by
  rcases notMem_or_line_append text with hnone | ⟨line, rest, hline, rfl⟩
  · rcases Nat.lt_or_ge text.length limit with hshort | hlength
    · exact .inr ⟨hnone, hshort⟩
    · exact .inl ⟨_, _, .take hlimit hlength hnone, (List.take_append_drop limit text).symm⟩
  · left
    rcases Nat.lt_or_ge limit line.length with hlong | hlength
    · -- The limit comes before the line feed.
      obtain ⟨body, hbody, rfl⟩ := hline
      rw [List.length_append, List.length_singleton] at hlong
      refine ⟨_, body.drop limit ++ Byte.lf :: rest,
        .take hlimit (Nat.le_of_lt_succ hlong) hbody, ?_⟩
      rw [← List.append_assoc, List.take_append_drop, List.append_assoc, List.singleton_append]
    · exact ⟨line, rest, hline.isLinePiece hlength, rfl⟩

/-- The line in which a text ends: what follows the last line feed before its last
byte. -/
def lastLine (text : Bytes) : Bytes :=
  text.dropLast.rtakeWhile (· != Byte.lf) ++ text.getLast?.toList

/-- A text which is empty or ends with a line feed has no part in the line behind it. -/
theorem lastLine_append {front line : Bytes} (hfront : ∀ b ∈ front.getLast?, b = Byte.lf)
    (hne : line ≠ []) (hline : Byte.lf ∉ line.dropLast) : lastLine (front ++ line) = line := by
  have hinside : ∀ b ∈ line.dropLast.reverse, (b != Byte.lf) = true := by
    intro b hb
    simpa using fun heq : b = Byte.lf => hline (heq ▸ List.mem_reverse.mp hb)
  have hbefore : front.reverse.takeWhile (· != Byte.lf) = [] := by
    rw [← List.head?_reverse] at hfront
    cases hlast : front.reverse with
    | nil => rfl
    | cons b later =>
        have hb : b = Byte.lf := hfront b (by rw [hlast]; rfl)
        rw [hb]
        rfl
  rw [lastLine, List.dropLast_append_of_ne_nil hne, List.rtakeWhile, List.reverse_append,
    List.takeWhile_append_of_pos hinside, hbefore, List.append_nil, List.reverse_reverse,
    List.getLast?_append_of_ne_nil _ hne, List.getLast?_eq_some_getLast hne]
  exact List.dropLast_append_getLast hne

end Bytes

namespace Transport

namespace Events

/-- What is taken as a line comes first, if it is not cut short by the end of the
stream. -/
theorem eq_append_of_takeLine {limit : Nat} {events rest : Events}
    (h : (events.takeLine limit).2 = .ok () rest) :
    Byte.lf ∉ (events.takeLine limit).1.dropLast ∧
      (events.takeLine limit).1.length ≤ limit ∧
      ((events.takeLine limit).1.length = limit ∨
          (events.takeLine limit).1.getLast? = some Byte.lf →
        events = .ofBytes (events.takeLine limit).1 ++ rest) := by
  fun_induction takeLine limit events with
  | case1 events =>
      cases h
      exact ⟨List.not_mem_nil, Nat.le_refl 0, fun _ => rfl⟩
  | case2 limit => exact ⟨List.not_mem_nil, Nat.zero_le _, by simp⟩
  | case3 limit later => exact ⟨List.not_mem_nil, Nat.zero_le _, by simp⟩
  | case4 limit later failure => cases h
  | case5 limit later =>
      cases h
      exact ⟨List.not_mem_nil, by simp, fun _ => rfl⟩
  | case6 limit b later hb ih =>
      obtain ⟨hinside, hlength, hwhole⟩ := ih h
      generalize (takeLine limit later).1 = line at hinside hlength hwhole ⊢
      cases line with
      | nil =>
          refine ⟨List.not_mem_nil, by simp, fun hfull => ?_⟩
          have hlimit : limit = 0 := by simpa [hb, eq_comm] using hfull
          rw [hwhole (.inl hlimit.symm)]
          rfl
      | cons c line =>
          refine ⟨?_, by simpa using hlength, fun hfull => ?_⟩
          · rw [List.dropLast_cons_cons, List.mem_cons, not_or]
            exact ⟨Ne.symm hb, hinside⟩
          · rw [List.getLast?_cons_cons, List.length_cons, Nat.add_right_cancel_iff] at hfull
            rw [hwhole hfull]
            rfl

end Events

namespace Reader

variable {events : Events} {reader after : Reader} {maxLine : Nat} {line : Bytes}

/-- What is read as a line is a piece, and it comes first. -/
theorem Shows.exists_of_line_eq_ok (h : reader.Shows events)
    (hline : reader.line maxLine = .ok line after) :
    Bytes.IsLinePiece (lineLimit maxLine) line ∧
      ∃ rest, events = .ofBytes line ++ rest ∧ after.Shows rest := by
  rw [Reader.line] at hline
  split at hline
  · next last hresult =>
      cases hline
      obtain ⟨hcollect, hwhole, hsame⟩ := LineRead.result_of_checked_ok hresult
      obtain ⟨htaken, hagrees⟩ := h.agrees_collectLine (lineLimit maxLine)
      rw [hcollect] at hagrees
      generalize htake : (events.takeLine (lineLimit maxLine)).2 = taken at hagrees
      cases hagrees with
      | @ok _ _ rest hafter =>
          obtain ⟨hinside, hlength, hcomes⟩ := Events.eq_append_of_takeLine htake
          rw [← htaken] at hinside hlength hcomes
          simp only [LineRead.isWhole, Bool.and_eq_true, decide_eq_true_eq, Bool.or_eq_true,
            beq_iff_eq] at hwhole
          rw [readLine, hsame]
          exact ⟨⟨hwhole.1, hinside, hlength, hwhole.2⟩, rest, hcomes hwhole.2, hafter⟩
  · cases hline

end Reader

end Transport

end StreamingHttp
