import StreamingHttp.Proofs.Transport.LinePieces
import StreamingHttp.Proofs.Transport.Segmentation

/-!
# Lines read again and again

A stream starts with a piece, or it stops before one is whole: with an end of file or a
failure, before a line feed and before the limit.  A call reads the piece in the first case
and fails in the second, and then it leaves the bytes before the stop to its caller.  So
whether a call fails can be told from the stream alone, and from nothing the reader holds in
its buffer.

* `Events.starts_or_stops` is the alternative, for any stream and any limit.  Every stream
  is bytes up to a stop, and these bytes start with a piece or end before one is whole.
* `LineCall.ends` says what a call does in each of the two cases.
* `Reader.lineCalls` are calls one after the other, also after failures.  Up to the first
  failure nothing is lost between them: what they leave to their caller, one behind the
  other, is what they have taken off the stream.
-/

namespace StreamingHttp

namespace Transport

/-! ### What a stream starts with -/

namespace Events

variable {limit : Nat} {events rest after : Events} {line text : Bytes} {failure : Failure}

/-- The stream starts with a piece. -/
structure StartsWith (limit : Nat) (events : Events) (line : Bytes) (rest : Events) :
    Prop where
  isPiece : Bytes.IsLinePiece limit line
  eq : events = .ofBytes line ++ rest

/-- The stream stops behind these bytes, before a line feed and before the limit.  This is
the failure of a call which needs one byte more, and these are the events which it leaves. -/
structure StopsBehind (limit : Nat) (events : Events) (text : Bytes) (failure : Failure)
    (after : Events) : Prop where
  inside : Byte.lf ∉ text
  short : text.length < limit
  stops : ∃ stop, events = .ofBytes text ++ stop ∧ StopsWith failure stop after

/-- Every stream starts with a piece or stops before one is whole. -/
theorem starts_or_stops (events : Events) (hlimit : 0 < limit) :
    (∃ line rest, StartsWith limit events line rest) ∨
      ∃ text failure after, StopsBehind limit events text failure after := by
  obtain ⟨text, stop, failure, after, rfl, hstop⟩ := events.exists_stopsWith
  rcases Bytes.isLinePiece_append_or_short hlimit text with
    ⟨line, rest, hpiece, rfl⟩ | ⟨hinside, hshort⟩
  · exact .inl ⟨line, .ofBytes rest ++ stop, hpiece, by rw [ofBytes_append, List.append_assoc]⟩
  · exact .inr ⟨text, failure, after, hinside, hshort, stop, rfl, hstop⟩

/-- A piece is taken as a line. -/
theorem StartsWith.takeLine (h : StartsWith limit events line rest) :
    events.takeLine limit = (line, .ok () rest) := by
  obtain ⟨hpiece, rfl⟩ := h
  obtain ⟨body, last, rfl⟩ : ∃ body last, line = body ++ [last] :=
    ⟨_, _, (List.dropLast_append_getLast hpiece.ne_nil).symm⟩
  have hinside := hpiece.inside
  have hlength := hpiece.length_le
  have hfull := hpiece.full
  rw [List.dropLast_concat] at hinside
  rw [List.length_append, List.length_singleton] at hlength hfull
  rw [List.getLast?_concat, Option.some_inj] at hfull
  obtain ⟨room, hroom⟩ : ∃ room, limit - body.length = room + 1 :=
    Nat.exists_eq_add_of_le' (by omega)
  have hlast : Events.takeLine (room + 1) (.byte last :: rest) = ([last], .ok () rest) := by
    rw [Events.takeLine]
    split
    · rfl
    · next hnot =>
        -- The last byte is not the line feed, so it is the one at the limit.
        have hzero : room = 0 := by
          have := hfull.resolve_right hnot
          omega
        rw [hzero]
        rfl
  rw [ofBytes_append, List.append_assoc, takeLine_ofBytes_append hinside (by omega), hroom,
    ofBytes_cons, ofBytes_nil, List.singleton_append, hlast]

end Events

/-! ### One call -/

/-- A call which reads a line: the reader it starts from and the limit it asks for. -/
structure LineCall where
  reader : Reader
  maxLine : Nat

namespace LineCall

/-- What the call leaves to its caller. -/
def line (call : LineCall) : Bytes :=
  (call.reader.readLine call.maxLine).line

/-- How the call ends. -/
def result (call : LineCall) : EStateM.Result Failure Reader Unit :=
  (call.reader.readLine call.maxLine).result

/-- The reader which the call leaves. -/
def next (call : LineCall) : Reader :=
  readerOf call.result

/-- The limit which the call keeps. -/
def limit (call : LineCall) : Nat :=
  lineLimit call.maxLine

/-- The call gives a line. -/
def Succeeds (call : LineCall) : Prop :=
  ∃ after, call.result = .ok () after

instance (call : LineCall) : Decidable call.Succeeds :=
  match h : call.result with
  | .ok () after => isTrue ⟨after, h⟩
  | .error _ _ => isFalse fun ⟨after, hafter⟩ => by
      rw [h] at hafter
      cases hafter

/-- This is left of the stream behind the bytes which the call has taken.  A call which
fails has taken the end of file or the failure, too. -/
def StopsAt (call : LineCall) (left : Events) : Prop :=
  match call.result with
  | .ok () after => left = after.events
  | .error failure after => Events.StopsWith failure left after.events

variable {call : LineCall} {events : Events}

theorem limit_pos (call : LineCall) : 0 < call.limit := by
  rw [limit, lineLimit, defaultMaxLine]
  split <;> omega

/-- How a call ends on a stream. -/
inductive Ends (events : Events) (call : LineCall) : Prop where
  | read {rest : Events} (hresult : call.result = .ok () call.next)
      (hstarts : events.StartsWith call.limit call.line rest)
      (hnext : call.next.Shows rest) : Ends events call
  | failed {failure : Failure} {rest : Events}
      (hresult : call.result = .error failure call.next)
      (hstops : events.StopsBehind call.limit call.line failure rest)
      (hnext : call.next.Shows rest) : Ends events call

/-- A call reads the piece which the stream starts with. -/
theorem read_of_startsWith {line : Bytes} {rest : Events} (h : call.reader.Shows events)
    (hstarts : events.StartsWith call.limit line rest) :
    call.line = line ∧ call.result = .ok () call.next ∧ call.next.Shows rest := by
  have hpiece := hstarts.isPiece
  have hwhole : LineRead.isWhole call.limit line = true := by
    rcases hpiece.full with hlength | hlast
    · simp [LineRead.isWhole, hpiece.ne_nil, hlength]
    · simp [LineRead.isWhole, hpiece.ne_nil, hlast]
  obtain ⟨after, hread, hafter⟩ := h.readLine_of_takeLine hstarts.takeLine hwhole
  have hresult : call.result = .ok () after := by rw [result, hread]
  have hnext : call.next = after := congrArg readerOf hresult
  rw [hnext]
  exact ⟨by rw [LineCall.line, hread], hresult, hafter⟩

/-- A call fails where the stream stops before a piece is whole. -/
theorem failed_of_stopsBehind {text : Bytes} {failure : Failure} {rest : Events}
    (h : call.reader.Shows events)
    (hstops : events.StopsBehind call.limit text failure rest) :
    call.line = text ∧ call.result = .error failure call.next ∧ call.next.Shows rest := by
  obtain ⟨hinside, hshort, stop, rfl, hstop⟩ := hstops
  obtain ⟨after, hread, hafter⟩ := h.readLine_of_stopsWith hinside hshort hstop
  have hresult : call.result = .error failure after := by rw [result, hread]
  have hnext : call.next = after := congrArg readerOf hresult
  rw [hnext]
  exact ⟨by rw [line, hread], hresult, hafter⟩

/-- Every call ends in one of the two ways. -/
theorem ends (h : call.reader.Shows events) : call.Ends events := by
  rcases events.starts_or_stops call.limit_pos with
    ⟨line, rest, hstarts⟩ | ⟨text, failure, rest, hstops⟩
  · obtain ⟨rfl, hresult, hnext⟩ := read_of_startsWith h hstarts
    exact .read hresult hstarts hnext
  · obtain ⟨rfl, hresult, hnext⟩ := failed_of_stopsBehind h hstops
    exact .failed hresult hstops hnext

theorem Ends.capacity_pos_next (h : call.Ends events) : 0 < call.next.capacity := by
  cases h with
  | read _ _ hnext => exact hnext.capacity_pos
  | failed _ _ hnext => exact hnext.capacity_pos

/-- A call which succeeds has taken a piece. -/
theorem Ends.startsWith (h : call.Ends events) {after : Reader}
    (hsucceeds : call.result = .ok () after) :
    events.StartsWith call.limit call.line after.events := by
  cases h with
  | read hresult hstarts hnext =>
      rw [hresult] at hsucceeds
      cases hsucceeds
      exact hnext.events_eq ▸ hstarts
  | failed hresult _ _ =>
      rw [hresult] at hsucceeds
      cases hsucceeds

/-- A call which fails has taken the bytes before the stop, and the stop. -/
theorem Ends.stopsBehind (h : call.Ends events) {failure : Failure} {after : Reader}
    (hfails : call.result = .error failure after) :
    events.StopsBehind call.limit call.line failure after.events := by
  cases h with
  | read hresult _ _ =>
      rw [hresult] at hfails
      cases hfails
  | failed hresult hstops hnext =>
      rw [hresult] at hfails
      cases hfails
      exact hnext.events_eq ▸ hstops

/-- A call fails iff the stream stops before a piece is whole. -/
theorem not_succeeds_iff (h : call.reader.Shows events) :
    ¬ call.Succeeds ↔
      ∃ text failure after, events.StopsBehind call.limit text failure after := by
  constructor
  · intro hnot
    cases call.ends h with
    | read hresult _ _ => exact absurd ⟨_, hresult⟩ hnot
    | failed _ hstops _ => exact ⟨_, _, _, hstops⟩
  · rintro ⟨text, failure, rest, hstops⟩ ⟨after, hsucceeds⟩
    obtain ⟨-, hfails, -⟩ := failed_of_stopsBehind h hstops
    rw [hsucceeds] at hfails
    cases hfails

/-- What a call takes comes first, and it leaves the stream right behind that. -/
theorem Ends.exists_stopsAt (h : call.Ends events) :
    ∃ left, events = .ofBytes call.line ++ left ∧ call.StopsAt left := by
  cases hresult : call.result with
  | ok _ after =>
      exact ⟨after.events, (h.startsWith hresult).eq, by rw [StopsAt, hresult]⟩
  | error failure after =>
      obtain ⟨stop, hstop, hfailure⟩ := (h.stopsBehind hresult).stops
      exact ⟨stop, hstop, by rwa [StopsAt, hresult]⟩

end LineCall

/-! ### Calls one after the other -/

namespace Reader

variable {reader : Reader}

/-- Calls which ask for these limits, one after the other, also after failures. -/
def lineCalls (reader : Reader) : List Nat → List LineCall
  | [] => []
  | maxLine :: later =>
      ⟨reader, maxLine⟩ :: (LineCall.next ⟨reader, maxLine⟩).lineCalls later

/-- A reader which can fill its buffer makes its first call like this. -/
theorem ends_lineCall (hcapacity : 0 < reader.capacity) (maxLine : Nat) :
    LineCall.Ends reader.events ⟨reader, maxLine⟩ :=
  LineCall.ends ⟨hcapacity, rfl⟩

/-- The reader of every call can fill its buffer. -/
theorem capacity_pos_of_mem_lineCalls (hcapacity : 0 < reader.capacity) (limits : List Nat) :
    ∀ call ∈ reader.lineCalls limits, 0 < call.reader.capacity := by
  induction limits generalizing reader with
  | nil => exact fun call hcall => absurd hcall List.not_mem_nil
  | cons maxLine later ih =>
      rw [lineCalls, List.forall_mem_cons]
      exact ⟨hcapacity, ih (ends_lineCall hcapacity maxLine).capacity_pos_next⟩

/-- As long as the calls succeed, what they give lies between the first reader and the
reader of the next call. -/
theorem events_eq_of_lineCalls (hcapacity : 0 < reader.capacity) {limits : List Nat}
    {earlier later : List LineCall} {call : LineCall}
    (hcalls : reader.lineCalls limits = earlier ++ call :: later)
    (hearlier : ∀ before ∈ earlier, before.Succeeds) :
    reader.events = .ofBytes (earlier.flatMap LineCall.line) ++ call.reader.events := by
  induction earlier generalizing reader limits with
  | nil =>
      cases limits with
      | nil => cases hcalls
      | cons maxLine limits =>
          rw [lineCalls, List.nil_append, List.cons.injEq] at hcalls
          rw [← hcalls.1]
          rfl
  | cons first earlier ih =>
      cases limits with
      | nil => cases hcalls
      | cons maxLine limits =>
          rw [lineCalls, List.cons_append, List.cons.injEq] at hcalls
          obtain ⟨rfl, hcalls⟩ := hcalls
          obtain ⟨⟨after, hresult⟩, hearlier⟩ := List.forall_mem_cons.mp hearlier
          have hends := ends_lineCall hcapacity maxLine
          have hnext : LineCall.next ⟨reader, maxLine⟩ = after := congrArg readerOf hresult
          have hlater := ih hends.capacity_pos_next hcalls hearlier
          rw [(hends.startsWith hresult).eq, ← hnext, hlater, List.flatMap_cons,
            Events.ofBytes_append, List.append_assoc]

/-- Whatever limits are asked for, however often, and however the bytes arrive:

* up to the first call which fails, and with it, what the calls leave to their caller, one
  behind the other, is what is taken off the stream;
* a call which succeeds gives a piece;
* a call fails iff the stream ends or fails before a line feed and before the limit, with
  this failure, and leaves the bytes before the stop to its caller. -/
theorem lineCalls_lose_nothing (hcapacity : 0 < reader.capacity) (limits : List Nat) :
    (∀ earlier call later, reader.lineCalls limits = earlier ++ call :: later →
      (∀ before ∈ earlier, before.Succeeds) →
      ∃ left, reader.events =
          .ofBytes (earlier.flatMap LineCall.line ++ call.line) ++ left ∧
        call.StopsAt left) ∧
    ∀ call ∈ reader.lineCalls limits,
      (∀ after, call.result = .ok () after →
        call.reader.events.StartsWith call.limit call.line after.events) ∧
      (¬ call.Succeeds ↔ ∃ text failure after,
        call.reader.events.StopsBehind call.limit text failure after) ∧
      ∀ failure after, call.result = .error failure after →
        call.reader.events.StopsBehind call.limit call.line failure after.events := by
  constructor
  · intro earlier call later hcalls hearlier
    have hmem : call ∈ reader.lineCalls limits := by
      rw [hcalls]
      exact List.mem_append_right earlier List.mem_cons_self
    have hshows : call.reader.Shows call.reader.events :=
      ⟨capacity_pos_of_mem_lineCalls hcapacity limits call hmem, rfl⟩
    obtain ⟨left, hleft, hstops⟩ := (LineCall.ends hshows).exists_stopsAt
    refine ⟨left, ?_, hstops⟩
    rw [events_eq_of_lineCalls hcapacity hcalls hearlier, hleft, Events.ofBytes_append,
      List.append_assoc]
  · intro call hcall
    have hshows : call.reader.Shows call.reader.events :=
      ⟨capacity_pos_of_mem_lineCalls hcapacity limits call hcall, rfl⟩
    have hends := LineCall.ends hshows
    exact ⟨fun _ hresult => hends.startsWith hresult, LineCall.not_succeeds_iff hshows,
      fun _ _ hresult => hends.stopsBehind hresult⟩

/-- A line in two pieces, the second with a line feed in the middle of what is buffered, and
a line which a failure cuts short.  The call behind the failure meets the end of file. -/
theorem lineCalls_lose_nothing_up_to_failure :
    let again : Failure := ⟨.interrupted, ""⟩
    let dropped : Failure := ⟨.connectionReset, "reset"⟩
    let reader : Reader :=
      { source := [.data (Utf8.ofString "bc"), .failure again, .data (Utf8.ofString "def\ng"),
          .data (Utf8.ofString "h"), .failure dropped, .data (Utf8.ofString "i")]
        capacity := 3
        buffer := Utf8.ofString "a" }
    let first : LineCall := ⟨reader, 4⟩
    let second : LineCall := ⟨first.next, 0⟩
    let third : LineCall := ⟨second.next, 3⟩
    let fourth : LineCall := ⟨third.next, 2⟩
    0 < reader.capacity ∧
      reader.lineCalls [4, 0, 3, 2] = [first, second] ++ third :: [fourth] ∧
      first.Succeeds ∧ second.Succeeds ∧
      (∃ left, reader.events = .ofBytes (Utf8.ofString "abcdef\ngh") ++ left ∧
        third.StopsAt left) ∧
      (¬ fourth.Succeeds ↔ ∃ text failure after,
        fourth.reader.events.StopsBehind fourth.limit text failure after) := by
  intro again dropped reader first second third fourth
  have hcapacity : 0 < reader.capacity := by decide
  have hcalls : reader.lineCalls [4, 0, 3, 2] = [first, second] ++ third :: [fourth] := rfl
  have hfirst : first.Succeeds := by decide +kernel
  have hsecond : second.Succeeds := by decide +kernel
  have hlines : [first, second].flatMap LineCall.line ++ third.line =
      Utf8.ofString "abcdef\ngh" := by decide +kernel
  obtain ⟨htaken, hcall⟩ := lineCalls_lose_nothing hcapacity [4, 0, 3, 2]
  obtain ⟨left, hleft, hstops⟩ := htaken _ _ _ hcalls (by simp [hfirst, hsecond])
  rw [hlines] at hleft
  exact ⟨hcapacity, hcalls, hfirst, hsecond, ⟨left, hleft, hstops⟩,
    (hcall fourth (by simp [hcalls])).2.1⟩

end Reader

end Transport

end StreamingHttp
