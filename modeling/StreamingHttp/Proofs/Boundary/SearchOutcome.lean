import StreamingHttp.Proofs.Boundary.SearchPosition

/-!
# What comes of a search

A search succeeds if and only if the delimiter is in the bytes before the stream ends or
fails.  It does so right behind the first delimiter, and has saved what is before it.  If
there is none, the search fails as the stream does.  The bytes before the failure are then
those which are saved and those which the window held, and the latter are less than a
delimiter.

The loop of a search goes round with a window which has room for one byte at least.  So a
round which does not fail reads a byte, and there are no more rounds than events.
-/

namespace StreamingHttp

namespace Boundary

open Transport

/-! ### Rounds -/

/-- Where the loop of a search stands before it reads. -/
structure Standing where
  saved : Option Bytes
  window : Bytes
  reader : Reader

/-- The search from there. -/
def Standing.search (boundary : Bytes) (standing : Standing) : Search :=
  searchFrom boundary standing.saved standing.window standing.reader

/-- Where the loop starts.  If nothing is saved, line ends are skipped before. -/
inductive Starts : Option Bytes → Reader → Standing → Prop where
  | saving (saved : Bytes) (reader : Reader) :
      Starts (some saved) reader ⟨some saved, [], reader⟩
  | skipping {reader after : Reader} {window : Bytes}
      (hskip : skipLineEnds reader = .ok window after) :
      Starts none reader ⟨none, window, after⟩

/-- A round fills the window, finds that it is no delimiter, and moves it on. -/
inductive Round (boundary : Bytes) (standing : Standing) : Standing → Prop where
  | moved {more : Bytes} {after : Reader}
      (hread : standing.reader.readExact
        ((delimiter boundary).length - standing.window.length) = .ok more after)
      (hwindow : standing.window ++ more ≠ delimiter boundary) :
      Round boundary standing
        { saved := standing.saved.map (· ++ leaving (standing.window ++ more))
          window := carried (standing.window ++ more)
          reader := after }

/-- Where the loop stands after so many rounds. -/
inductive Reached (boundary : Bytes) (saved : Option Bytes) (reader : Reader) :
    Nat → Standing → Prop where
  | start {standing : Standing} (h : Starts saved reader standing) :
      Reached boundary saved reader 0 standing
  | round {count : Nat} {standing next : Standing}
      (h : Reached boundary saved reader count standing)
      (hround : Round boundary standing next) :
      Reached boundary saved reader (count + 1) next

variable {boundary : Bytes} {saved : Option Bytes} {reader : Reader}
  {standing next : Standing}

theorem Starts.search_eq (h : Starts saved reader standing) (boundary : Bytes) :
    search boundary saved reader = standing.search boundary := by
  cases h with
  | saving => rfl
  | skipping hskip => rw [search, hskip, Standing.search]

/-- The window has room, and what was skipped is gone. -/
theorem Starts.progress (h : Starts saved reader standing) (boundary : Bytes) :
    standing.window.length < (delimiter boundary).length ∧
      standing.reader.events.length ≤ reader.events.length := by
  cases h with
  | saving => exact ⟨Nat.succ_pos _, Nat.le_refl _⟩
  | skipping hskip =>
      have hskipped := reader.offers.skipped
      rw [hskip] at hskipped
      cases hskipped with
      | stopped _ hbefore hafter =>
          rw [hbefore, hafter.events_eq, List.length_append]
          exact ⟨by simp [delimiter], Nat.le_add_left _ _⟩

theorem Round.search_eq (h : Round boundary standing next) :
    standing.search boundary = next.search boundary := by
  cases h with
  | moved hread hwindow =>
      rw [Standing.search, Standing.search, searchFrom_eq, hread]
      exact if_neg hwindow

/-- A round reads one byte at least, and leaves room for another one. -/
theorem Round.progress (h : Round boundary standing next)
    (hroom : standing.window.length < (delimiter boundary).length) :
    next.window.length < (delimiter boundary).length ∧
      next.reader.events.length < standing.reader.events.length := by
  cases h with
  | @moved more after hread hwindow =>
      obtain ⟨rest, hlength, hbefore, hafter⟩ :=
        standing.reader.offers.exists_of_readExact_eq_ok hread
      have hcarried := length_carried_le (standing.window ++ more)
      rw [List.length_append] at hcarried
      rw [hbefore, hafter.events_eq, List.length_append, Events.length_ofBytes]
      dsimp only
      omega

/-- The loop goes on with the same search, with room in its window.  Every round has taken
an event. -/
theorem Reached.progress {count : Nat} (h : Reached boundary saved reader count standing) :
    search boundary saved reader = standing.search boundary ∧
      standing.window.length < (delimiter boundary).length ∧
      count + standing.reader.events.length ≤ reader.events.length := by
  induction h with
  | start h =>
      obtain ⟨hroom, hlength⟩ := h.progress boundary
      exact ⟨h.search_eq boundary, hroom, by omega⟩
  | round _ hround ih =>
      obtain ⟨hsearch, hroom, hlength⟩ := ih
      obtain ⟨hnext, hless⟩ := hround.progress hroom
      exact ⟨hsearch.trans hround.search_eq, hnext, by omega⟩

/-! ### Outcomes -/

/-- A search succeeds if and only if the delimiter is in the bytes before the stream ends or
fails.  It stops right behind the first one, and what is before that is saved, if anything
is.  Its loop always has room for a byte, and goes round no more often than there are
events. -/
theorem search_stops_behind_first_delimiter (boundary : Bytes) (saved : Option Bytes)
    (reader : Reader) :
    ((∃ after, (search boundary saved reader).result = .ok () after) ↔
        ∃ position, OccursAt (delimiter boundary) reader.events.front position) ∧
      (∀ position, FirstOccurrence (delimiter boundary) reader.events.front position →
        (search boundary saved reader).saved =
            saved.map (· ++ reader.events.front.take position) ∧
          ∃ after, (search boundary saved reader).result = .ok () after ∧
            after.events = reader.events.drop (position + 2 + boundary.length)) ∧
      ∀ count standing, Reached boundary saved reader count standing →
        search boundary saved reader = standing.search boundary ∧
          standing.window.length < (delimiter boundary).length ∧
          count + standing.reader.events.length ≤ reader.events.length := by
  refine ⟨?_, fun position hfirst => ?_, fun count standing hreached => hreached.progress⟩
  · obtain ⟨position, after, hfirst, hsearch, -⟩ |
        ⟨skipped, held, stop, failure, rest, after, hnone, -, -, -, -, hsearch, -⟩ :=
      reader.offers.search_cases boundary saved
    · rw [hsearch]
      exact iff_of_true ⟨after, rfl⟩ ⟨position, hfirst.occurs⟩
    · rw [hsearch, ← isInfix_iff_exists_occursAt]
      refine iff_of_false ?_ hnone
      rintro ⟨_, ⟨⟩⟩
  · obtain ⟨after, hsearch, hafter⟩ := reader.offers.search hfirst saved
    have hlength : position + (delimiter boundary).length = position + 2 + boundary.length := by
      rw [delimiter, List.length_cons, List.length_cons]
      omega
    rw [hlength] at hafter
    rw [hsearch]
    exact ⟨rfl, after, rfl, hafter.events_eq⟩

/-- The boundary has hyphens of its own, and others precede the delimiter.  The reader has
no buffer, and one of its reads is interrupted. -/
theorem search_stops_behind_first_delimiter_among_hyphens :
    let reader : Reader :=
      { source :=
          [.data [0x78, 0x2D], .failure ⟨.interrupted, ""⟩,
            .data [0x2D, 0x2D, 0x2D, 0x2D, 0x2D, 0x61, 0x2D], .data [0x2D, 0x7A]]
        capacity := 0 }
    let boundary : Bytes := [0x2D, 0x61, 0x2D]
    let saved : Option Bytes := some [0x73]
    FirstOccurrence (delimiter boundary) reader.events.front 4 ∧
      (search boundary saved reader).saved = some [0x73, 0x78, 0x2D, 0x2D, 0x2D] ∧
      (∃ after, (search boundary none reader).result = .ok () after ∧
        after.events = Events.ofBytes [0x2D, 0x7A]) ∧
      ∃ standing, Reached boundary saved reader 1 standing ∧
        1 + standing.reader.events.length ≤ reader.events.length := by
  intro reader boundary saved
  have hfirst : FirstOccurrence (delimiter boundary) reader.events.front 4 :=
    ⟨by decide, by decide⟩
  obtain ⟨-, hsaving, hrounds⟩ := search_stops_behind_first_delimiter boundary saved reader
  obtain ⟨-, hskipping, -⟩ := search_stops_behind_first_delimiter boundary none reader
  obtain ⟨hsaved, -⟩ := hsaving 4 hfirst
  obtain ⟨-, after, hresult, hafter⟩ := hskipping 4 hfirst
  have hread : reader.readExact 5 = .ok [0x78, 0x2D, 0x2D, 0x2D, 0x2D]
      { source := [.data [0x2D, 0x2D, 0x61, 0x2D], .data [0x2D, 0x7A]], capacity := 0 } := by
    cbv
  have hmoved : ([] : Bytes) ++ [0x78, 0x2D, 0x2D, 0x2D, 0x2D] ≠ delimiter boundary := by
    decide
  have hround : Round boundary ⟨saved, [], reader⟩ _ := .moved hread hmoved
  have hreached : Reached boundary saved reader 1 _ :=
    .round (.start (.saving [0x73] reader)) hround
  have htaken : saved.map (· ++ reader.events.front.take 4) =
      some [0x73, 0x78, 0x2D, 0x2D, 0x2D] := by
    decide
  have hleft : reader.events.drop (4 + 2 + boundary.length) =
      Events.ofBytes [0x2D, 0x7A] := by
    decide
  exact ⟨hfirst, hsaved.trans htaken, ⟨after, hresult, hafter.trans hleft⟩, _, hreached,
    (hrounds 1 _ hreached).2.2⟩

/-- If the delimiter is not in the bytes before the stream ends or fails, the search fails
with it.  Of the bytes which it has read then, those which the window held are not saved,
and they are less than a delimiter. -/
theorem search_fails_where_stream_does (boundary : Bytes) (saved : Option Bytes)
    (reader : Reader)
    (h : ∀ position, ¬ OccursAt (delimiter boundary) reader.events.front position) :
    ∃ skipped held stop failure after,
      reader.events = .ofBytes (skipped ++ held) ++ stop ∧
        stop.FallsShort failure after.events ∧
        (search boundary saved reader).result = .error failure after ∧
        (search boundary saved reader).saved = saved.map (· ++ skipped) ∧
        held.length < boundary.length + 2 ∧ ¬ delimiter boundary <:+: skipped ++ held := by
  obtain ⟨position, after, hfirst, -, -⟩ |
      ⟨skipped, held, stop, failure, rest, after, hnone, hfront, hevents, hstop, hheld,
        hsearch, hafter⟩ :=
    reader.offers.search_cases boundary saved
  · exact absurd hfirst.occurs (h position)
  · rw [hfront] at hevents hnone
    rw [← hafter.events_eq] at hstop
    rw [hsearch]
    exact ⟨skipped, held, stop, failure, after, hevents, hstop, rfl, rfl, hheld, hnone⟩

/-- The failure comes while the window, which holds the start of the delimiter, is filled,
and the rest of the delimiter comes behind it. -/
theorem search_fails_where_stream_does_in_delimiter :
    let dropped : Failure := ⟨.connectionReset, "reset"⟩
    let reader : Reader :=
      { source :=
          [.data [0x61, 0x62, 0x2D, 0x63], .data [0x2D, 0x2D, 0x66], .failure dropped,
            .data [0x6F, 0x6F]]
        capacity := 4 }
    let boundary : Bytes := [0x66, 0x6F, 0x6F]
    (∀ position, ¬ OccursAt (delimiter boundary) reader.events.front position) ∧
      ∃ skipped held after,
        skipped ++ held = [0x61, 0x62, 0x2D, 0x63, 0x2D, 0x2D, 0x66] ∧
          (search boundary (some [0x73]) reader).result = .error dropped after ∧
          after.events = Events.ofBytes [0x6F, 0x6F] ∧
          (search boundary (some [0x73]) reader).saved = some (0x73 :: skipped) ∧
          held.length < 5 := by
  intro dropped reader boundary
  have hnone : ∀ position, ¬ OccursAt (delimiter boundary) reader.events.front position := by
    intro position hoccurs
    exact absurd hoccurs.isInfix (by decide)
  obtain ⟨skipped, held, stop, failure, after, hevents, hstop, hresult, hsaved, hheld, -⟩ :=
    search_fails_where_stream_does boundary (some [0x73]) reader hnone
  have hshown : reader.events =
      Events.ofBytes [0x61, 0x62, 0x2D, 0x63, 0x2D, 0x2D, 0x66] ++
        .failure dropped :: Events.ofBytes [0x6F, 0x6F] := by
    decide
  have hread : [0x61, 0x62, 0x2D, 0x63, 0x2D, 0x2D, 0x66] = skipped ++ held := by
    have hfront := congrArg Events.front hevents
    rw [Events.front_ofBytes_append, hstop.front_eq_nil, List.append_nil] at hfront
    exact hfront
  rw [hshown, ← hread] at hevents
  rw [← List.append_cancel_left hevents] at hstop
  generalize hleft : after.events = left at hstop
  cases hstop with
  | ended hends => cases hends
  | failed => exact ⟨hnone, skipped, held, after, hread.symm, hresult, hleft, hsaved, hheld⟩

end Boundary

end StreamingHttp
