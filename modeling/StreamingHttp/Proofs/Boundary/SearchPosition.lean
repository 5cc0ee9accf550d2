import StreamingHttp.Boundary.Search
import StreamingHttp.Proofs.Boundary.FirstOccurrence
import StreamingHttp.Proofs.Transport.Events
import Mathlib.Data.List.TakeWhile

/-!
# The search finds the first delimiter

The window and the bytes which are not read yet are the text still to be searched.
A delimiter starts with a hyphen, so it can start neither at a byte between the first
of a window and its next hyphen nor at a line end.  Hence the first delimiter stays
where it is when the window moves on and when line ends are skipped.

`Searched` says how a search ends: behind the first delimiter, with all that is before it
saved, or where the stream ends or fails, with all saved but what the window holds.
One lemma moves either end back over bytes in which no delimiter starts, and so through
the rounds of the search.
-/

namespace StreamingHttp

namespace Boundary

open Transport

variable {boundary text : Bytes} {position : Nat}

theorem getElem?_of_occursAt_delimiter (h : OccursAt (delimiter boundary) text position) :
    text[position]? = some Byte.dash :=
  h.getElem?_eq (Nat.succ_pos _)

theorem delimiter_ne_nil : delimiter boundary ≠ [] :=
  List.cons_ne_nil _ _

/-- What leaves a window is its first byte and those up to the next hyphen. -/
theorem leaving_cons (b : UInt8) (window : Bytes) :
    leaving (b :: window) = b :: window.takeWhile (· != Byte.dash) := by
  have hwhole := leaving_append_carried (b :: window)
  have hsplit := List.takeWhile_append_dropWhile
    (p := (· != Byte.dash)) (l := window)
  have hcarried : carried (b :: window) = window.dropWhile (· != Byte.dash) := rfl
  rw [hcarried] at hwhole
  have hsame : leaving (b :: window) ++ window.dropWhile (· != Byte.dash) =
      b :: window.takeWhile (· != Byte.dash) ++
        window.dropWhile (· != Byte.dash) := by
    rw [hwhole, List.cons_append, hsplit]
  exact List.append_cancel_right hsame

/-- No delimiter starts in what leaves a window which is none itself. -/
theorem length_leaving_le {window unread : Bytes}
    (hlength : window.length = (delimiter boundary).length)
    (hwindow : window ≠ delimiter boundary)
    (h : OccursAt (delimiter boundary) (window ++ unread) position) :
    (leaving window).length ≤ position := by
  by_contra hinside
  rw [not_le] at hinside
  cases position with
  | zero =>
      -- The whole window would be the delimiter.
      rw [OccursAt, List.drop_zero] at h
      have hstarts := List.prefix_of_prefix_length_le h (List.prefix_append _ _)
        (by omega)
      exact hwindow (hstarts.eq_of_length hlength.symm).symm
  | succ position =>
      have hdash := getElem?_of_occursAt_delimiter h
      rw [← leaving_append_carried window, List.append_assoc,
        List.getElem?_append_left hinside] at hdash
      cases window with
      | nil => simp [leaving] at hinside
      | cons b window =>
          rw [leaving_cons, List.getElem?_cons_succ] at hdash
          have hmem := List.mem_takeWhile_imp (List.mem_of_getElem? hdash)
          simp at hmem

/-- No delimiter starts in line ends. -/
theorem length_lineEnds_le {skipped unread : Bytes}
    (hskipped : ∀ b ∈ skipped, Byte.isLineEnd b = true)
    (h : OccursAt (delimiter boundary) (skipped ++ unread) position) :
    skipped.length ≤ position := by
  by_contra hinside
  rw [not_le] at hinside
  have hdash := getElem?_of_occursAt_delimiter h
  rw [List.getElem?_append_left hinside] at hdash
  exact absurd (hskipped Byte.dash (List.mem_of_getElem? hdash)) (by decide)

/-! ### Rounds -/

/-- A round of a search. -/
theorem searchFrom_eq (boundary : Bytes) (saved : Option Bytes) (window : Bytes)
    (reader : Reader) :
    searchFrom boundary saved window reader =
      match reader.readExact ((delimiter boundary).length - window.length) with
      | .error failure after => ⟨saved, .error failure after⟩
      | .ok more after =>
          if window ++ more = delimiter boundary then ⟨saved, .ok () after⟩
          else
            searchFrom boundary (saved.map (· ++ leaving (window ++ more)))
              (carried (window ++ more)) after := by
  rw [searchFrom]
  split
  · next hread => rw [hread]
  · next hread => rw [hread]

/-- A round of skipping line ends. -/
theorem skipLineEnds_eq (reader : Reader) :
    skipLineEnds reader =
      match reader.readExact 1 with
      | .error failure after => .error failure after
      | .ok bytes after =>
          if bytes.any Byte.isLineEnd then skipLineEnds after else .ok bytes after := by
  rw [skipLineEnds]
  split
  · next hread => rw [hread]
  · next hread => rw [hread]

/-! ### How a search ends -/

/-- What comes of skipping line ends: the first other byte, or the failure before one. -/
inductive Skipped (capacity : Nat) (before : Events) :
    EStateM.Result Failure Reader Bytes → Prop where
  | stopped {skipped : Bytes} {b : UInt8} {events : Events} {after : Reader}
      (hskipped : ∀ b ∈ skipped, Byte.isLineEnd b = true)
      (hbefore : before = .ofBytes (skipped ++ [b]) ++ events)
      (h : after.Offers capacity events) : Skipped capacity before (.ok [b] after)
  | failed {skipped : Bytes} {stop events : Events} {failure : Failure} {after : Reader}
      (hskipped : ∀ b ∈ skipped, Byte.isLineEnd b = true)
      (hbefore : before = .ofBytes skipped ++ stop)
      (hstop : stop.FallsShort failure events) (h : after.Offers capacity events) :
      Skipped capacity before (.error failure after)

/-- How a search ends which holds a window read before these events.  What it has skipped
is saved, and what it holds when the stream ends or fails is not. -/
inductive Searched (boundary : Bytes) (capacity : Nat) (saved : Option Bytes)
    (window : Bytes) (before : Events) : Search → Prop where
  | found {skipped read : Bytes} {events : Events} {after : Reader}
      (htext : window ++ read = skipped ++ delimiter boundary)
      (hfirst : FirstOccurrence (delimiter boundary) (window ++ read) skipped.length)
      (hbefore : before = .ofBytes read ++ events) (h : after.Offers capacity events) :
      Searched boundary capacity saved window before
        ⟨saved.map (· ++ skipped), .ok () after⟩
  | failed {skipped held read : Bytes} {stop events : Events} {failure : Failure}
      {after : Reader} (htext : window ++ read = skipped ++ held)
      (hheld : held.length < (delimiter boundary).length)
      (hnone : ¬ delimiter boundary <:+: window ++ read)
      (hbefore : before = .ofBytes read ++ stop)
      (hstop : stop.FallsShort failure events) (h : after.Offers capacity events) :
      Searched boundary capacity saved window before
        ⟨saved.map (· ++ skipped), .error failure after⟩

/-- A search may start earlier, with bytes which are saved and in which no delimiter
starts. -/
theorem Searched.of_front {capacity : Nat} {saved : Option Bytes}
    {front window kept more : Bytes} {before events : Events} {search : Search}
    (h : Searched boundary capacity (saved.map (· ++ front)) kept events search)
    (hwindow : window ++ more = front ++ kept) (hbefore : before = .ofBytes more ++ events)
    (hfront : ∀ unread position,
      OccursAt (delimiter boundary) (front ++ (kept ++ unread)) position →
        front.length ≤ position) :
    Searched boundary capacity saved window before search := by
  have htext (read : Bytes) : window ++ (more ++ read) = front ++ (kept ++ read) := by
    rw [← List.append_assoc, hwindow, List.append_assoc]
  have hsaved (skipped : Bytes) : (saved.map (· ++ front)).map (· ++ skipped) =
      saved.map (· ++ (front ++ skipped)) := by
    simp [Function.comp_def]
  cases h with
  | @found skipped read rest after hkept hfirst hevents hafter =>
      have hall : window ++ (more ++ read) = front ++ skipped ++ delimiter boundary := by
        rw [htext, hkept, List.append_assoc]
      have hmoved : FirstOccurrence (delimiter boundary) (window ++ (more ++ read))
          (front ++ skipped).length := by
        rw [htext, List.length_append]
        exact hfirst.append_left (hfront read)
      have hread : before = .ofBytes (more ++ read) ++ rest := by
        rw [hbefore, hevents, Events.ofBytes_append, List.append_assoc]
      rw [hsaved]
      exact .found hall hmoved hread hafter
  | @failed skipped held read stop rest failure after hkept hheld hnone hevents hstop hafter =>
      have hall : window ++ (more ++ read) = front ++ skipped ++ held := by
        rw [htext, hkept, List.append_assoc]
      have hnowhere : ¬ delimiter boundary <:+: window ++ (more ++ read) := by
        rw [htext]
        exact fun hinfix => hnone (isInfix_of_isInfix_append (hfront read) hinfix)
      have hread : before = .ofBytes (more ++ read) ++ stop := by
        rw [hbefore, hevents, Events.ofBytes_append, List.append_assoc]
      rw [hsaved]
      exact .failed hall hheld hnowhere hread hstop hafter

end Boundary

namespace Transport

namespace Reader

open Boundary

variable {capacity : Nat} {boundary text : Bytes} {position : Nat} {events : Events}
  {reader : Reader}

/-- Line ends are skipped up to the first other byte. -/
theorem Offers.skipped (h : reader.Offers capacity events) :
    Skipped capacity events (skipLineEnds reader) := by
  fun_induction skipLineEnds reader generalizing events with
  | case1 reader failure after hread =>
      obtain ⟨lost, stop, rest, hlength, hbefore, hstop, hafter⟩ :=
        h.exists_of_readExact_eq_error hread
      obtain rfl := List.length_eq_zero_iff.mp (Nat.lt_one_iff.mp hlength)
      exact .failed (List.forall_mem_nil _) hbefore hstop hafter
  | case2 reader bytes after hread hskip ih =>
      obtain ⟨rest, hlength, hbefore, hafter⟩ := h.exists_of_readExact_eq_ok hread
      obtain ⟨b, rfl⟩ := List.length_eq_one_iff.mp hlength
      have hb : Byte.isLineEnd b = true := by simpa using hskip
      have hrest := ih hafter
      generalize skipLineEnds after = result at hrest
      cases hrest with
      | stopped hskipped hevents hlast =>
          refine .stopped (List.forall_mem_cons.mpr ⟨hb, hskipped⟩) ?_ hlast
          rw [hbefore, hevents, ← List.append_assoc, ← Events.ofBytes_append]
          rfl
      | failed hskipped hevents hstop hlast =>
          refine .failed (List.forall_mem_cons.mpr ⟨hb, hskipped⟩) ?_ hstop hlast
          rw [hbefore, hevents, ← List.append_assoc, ← Events.ofBytes_append]
          rfl
  | case3 reader bytes after hread hstop =>
      obtain ⟨rest, hlength, hbefore, hafter⟩ := h.exists_of_readExact_eq_ok hread
      obtain ⟨b, rfl⟩ := List.length_eq_one_iff.mp hlength
      exact .stopped (List.forall_mem_nil _) hbefore hafter

/-- A search with a window stops behind the first delimiter, or where the stream ends or
fails. -/
theorem Offers.searched_searchFrom (h : reader.Offers capacity events)
    (saved : Option Bytes) (window : Bytes)
    (hlength : window.length ≤ (delimiter boundary).length) :
    Searched boundary capacity saved window events
      (searchFrom boundary saved window reader) := by
  have hsame (saved : Option Bytes) : saved.map (· ++ []) = saved := by
    simp
  fun_induction searchFrom boundary saved window reader generalizing events with
  | case1 saved window reader failure after hread =>
      obtain ⟨lost, stop, rest, hlost, hbefore, hstop, hafter⟩ :=
        h.exists_of_readExact_eq_error hread
      have hheld : (window ++ lost).length < (delimiter boundary).length := by
        rw [List.length_append]
        omega
      have hnone : ¬ delimiter boundary <:+: window ++ lost :=
        fun hinfix => absurd hinfix.length_le (by omega)
      have hended : Searched boundary capacity saved window events
          ⟨saved.map (· ++ []), .error failure after⟩ :=
        .failed (List.nil_append _).symm hheld hnone hbefore hstop hafter
      rwa [hsame] at hended
  | case2 saved window reader more after hread hfound =>
      obtain ⟨rest, -, hbefore, hafter⟩ := h.exists_of_readExact_eq_ok hread
      have hfirst : FirstOccurrence (delimiter boundary) (window ++ more) 0 := by
        refine ⟨?_, fun earlier hearlier => absurd hearlier (Nat.not_lt_zero _)⟩
        rw [OccursAt, List.drop_zero, hfound]
      have hended : Searched boundary capacity saved window events
          ⟨saved.map (· ++ []), .ok () after⟩ :=
        .found (hfound.trans (List.nil_append _).symm) hfirst hbefore hafter
      rwa [hsame] at hended
  | case3 saved window reader more after hread hmoved ih =>
      obtain ⟨rest, hmore, hbefore, hafter⟩ := h.exists_of_readExact_eq_ok hread
      have hfull : (window ++ more).length = (delimiter boundary).length := by
        rw [List.length_append]
        omega
      -- What leaves the window is skipped, and the search goes on with what stays.
      have hcarried := length_carried_le (window ++ more)
      have hrest := ih hafter (by omega)
      refine hrest.of_front (leaving_append_carried _).symm hbefore ?_
      intro unread position hoccurs
      rw [← List.append_assoc, leaving_append_carried] at hoccurs
      exact length_leaving_le hfull hmoved hoccurs

/-- So does any search. -/
theorem Offers.searched (h : reader.Offers capacity events) (boundary : Bytes)
    (saved : Option Bytes) :
    Searched boundary capacity saved [] events (search boundary saved reader) := by
  cases saved with
  | some saved => exact h.searched_searchFrom (some saved) [] (Nat.zero_le _)
  | none =>
      have hskipped := h.skipped
      rw [search]
      generalize skipLineEnds reader = result at hskipped
      cases hskipped with
      | @stopped skipped b rest after hskipped hbefore hafter =>
          have hone : [b].length ≤ (delimiter boundary).length := by
            simp [delimiter]
          -- The first other byte is the window, and the line ends are before it.
          have hsearched := hafter.searched_searchFrom none [b] hone
          refine Searched.of_front hsearched (List.nil_append _) hbefore ?_
          intro unread position hoccurs
          exact length_lineEnds_le hskipped hoccurs
      | @failed skipped stop rest failure after hskipped hbefore hstop hafter =>
          have hnone : ¬ delimiter boundary <:+: skipped := by
            intro hinfix
            have hdash := hinfix.subset List.mem_cons_self
            exact absurd (hskipped Byte.dash hdash) (by decide)
          have hheld : ([] : Bytes).length < (delimiter boundary).length := Nat.succ_pos _
          exact .failed (List.append_nil _).symm hheld hnone hbefore hstop hafter

/-- Either the first delimiter is found, or there is none before the stream ends or
fails. -/
theorem Offers.search_cases (h : reader.Offers capacity events) (boundary : Bytes)
    (saved : Option Bytes) :
    (∃ position after, FirstOccurrence (delimiter boundary) events.front position ∧
      search boundary saved reader =
        ⟨saved.map (· ++ events.front.take position), .ok () after⟩ ∧
      after.Offers capacity (events.drop (position + (delimiter boundary).length))) ∨
    ∃ skipped held stop failure rest after,
      ¬ delimiter boundary <:+: events.front ∧ events.front = skipped ++ held ∧
      events = .ofBytes events.front ++ stop ∧ stop.FallsShort failure rest ∧
      held.length < (delimiter boundary).length ∧
      search boundary saved reader = ⟨saved.map (· ++ skipped), .error failure after⟩ ∧
      after.Offers capacity rest := by
  have hsearched := h.searched boundary saved
  generalize search boundary saved reader = outcome at hsearched
  cases hsearched with
  | @found skipped read rest after htext hfirst hbefore hafter =>
      left
      rw [List.nil_append] at htext hfirst
      have hfront : events.front = read ++ rest.front := by
        rw [hbefore, Events.front_ofBytes_append]
      have hlength : (Events.ofBytes read).length =
          skipped.length + (delimiter boundary).length := by
        rw [htext, Events.length_ofBytes, List.length_append]
      refine ⟨skipped.length, after, ?_, ?_, ?_⟩
      · rw [hfront]
        exact hfirst.append_right delimiter_ne_nil _
      · rw [hfront, htext, List.append_assoc, List.take_left]
      · rwa [hbefore, ← hlength, List.drop_left]
  | @failed skipped held read stop rest failure after htext hheld hnone hbefore hstop hafter =>
      right
      rw [List.nil_append] at htext hnone
      have hfront : events.front = read := by
        rw [hbefore, Events.front_ofBytes_append, hstop.front_eq_nil, List.append_nil]
      rw [← hfront] at htext hnone hbefore
      exact ⟨skipped, held, stop, failure, rest, after, hnone, htext, hbefore, hstop, hheld,
        rfl, hafter⟩

/-- A delimiter which is there is found. -/
theorem Offers.search (h : reader.Offers capacity events)
    (hfirst : FirstOccurrence (delimiter boundary) events.front position)
    (saved : Option Bytes) :
    ∃ after, Boundary.search boundary saved reader =
        ⟨saved.map (· ++ events.front.take position), .ok () after⟩ ∧
      after.Offers capacity (events.drop (position + (delimiter boundary).length)) := by
  obtain ⟨found, after, hfound, hsearch, hafter⟩ | ⟨_, _, _, _, _, _, hnone, -⟩ :=
    h.search_cases boundary saved
  · obtain rfl := hfirst.unique hfound
    exact ⟨after, hsearch, hafter⟩
  · exact absurd hfirst.occurs.isInfix hnone

/-- The search stops behind the first delimiter, and has saved what is before it. -/
theorem Shows.search (h : reader.Shows (.ofBytes text ++ events))
    (hfirst : FirstOccurrence (delimiter boundary) text position)
    (saved : Option Bytes) :
    (Boundary.search boundary saved reader).saved =
        saved.map (· ++ text.take position) ∧
      ∃ after, (Boundary.search boundary saved reader).result = .ok () after ∧
        after.Shows (.ofBytes (text.drop (position + (delimiter boundary).length)) ++
          events) := by
  have hinside := hfirst.occurs.length_le delimiter_ne_nil
  have hfront := hfirst.append_right delimiter_ne_nil events.front
  rw [← Events.front_ofBytes_append] at hfront
  obtain ⟨after, hsearch, hafter⟩ := h.offers.search hfront saved
  have htaken : (Events.front (.ofBytes text ++ events)).take position =
      text.take position := by
    rw [Events.front_ofBytes_append, List.take_append_of_le_length (by omega)]
  have hleft : (Events.ofBytes text ++ events).drop
        (position + (delimiter boundary).length) =
      Events.ofBytes (text.drop (position + (delimiter boundary).length)) ++ events := by
    rw [List.drop_append_of_le_length (by rwa [Events.length_ofBytes])]
    simp only [Events.ofBytes, List.map_drop]
  rw [hleft] at hafter
  rw [hsearch, htaken]
  exact ⟨rfl, after, rfl, hafter.shows h.capacity_pos⟩

end Reader

end Transport

end StreamingHttp
