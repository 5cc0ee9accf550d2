import StreamingHttp.Transport.Reader

/-!
# What the reads of a stream meet

A stream is a sequence of events: a byte, an end of file or a failure.  How its
bytes are cut into arrivals, which of them a reader holds in its buffer, and which
calls are interrupted and made again, is not in the events.

* `Took` says how a single read may end: with bytes, at an end of file, with a
  failure, or interrupted.
* `TookExact` says how an exact read ends: with so many bytes, or before them.
* `Events.takeExact` takes so many bytes from the events.  `agrees_readExact` shows
  that a reader with any buffer does the same, however the stream is cut.

A reader *offers* events if they are what its buffer and its source hold, in this
order.  It *shows* them if its capacity is not 0.  Whoever looks into the buffer needs
this, because a buffer which holds nothing looks like an end of file.  Reads do not,
because they go past such a buffer.
-/

namespace StreamingHttp

namespace Transport

/-- What a caller meets who reads byte by byte. -/
inductive Event where
  | byte (b : UInt8)
  | endOfFile
  | failure (failure : Failure)
  deriving DecidableEq, Repr

/-- What is left of a stream.  After the last event comes the end of file. -/
abbrev Events := List Event

/-- Bytes and nothing else. -/
def Events.ofBytes (bytes : Bytes) : Events :=
  bytes.map .byte

namespace Events

@[simp] theorem ofBytes_nil : ofBytes [] = [] :=
  rfl

@[simp] theorem ofBytes_cons (b : UInt8) (bytes : Bytes) :
    ofBytes (b :: bytes) = .byte b :: ofBytes bytes :=
  rfl

@[simp] theorem ofBytes_append (first second : Bytes) :
    ofBytes (first ++ second) = ofBytes first ++ ofBytes second :=
  List.map_append

@[simp] theorem length_ofBytes (bytes : Bytes) : (ofBytes bytes).length = bytes.length :=
  List.length_map _

theorem ofBytes_injective : Function.Injective ofBytes :=
  fun _ _ => (List.map_inj_right fun _ _ => Event.byte.inj).mp

/-- The bytes before the stream ends or fails. -/
def front : Events → Bytes
  | .byte b :: later => b :: front later
  | _ => []

theorem front_ofBytes_append (bytes : Bytes) (events : Events) :
    front (.ofBytes bytes ++ events) = bytes ++ front events := by
  induction bytes with
  | nil => rfl
  | cons b bytes ih =>
      rw [ofBytes_cons, List.cons_append, front, ih]
      rfl

/-- Takes so many bytes. -/
def takeExact : Nat → Events → EStateM.Result Failure Events Bytes
  | 0, events => .ok [] events
  | _ + 1, [] => .error .shortRead []
  | _ + 1, .endOfFile :: later => .error .shortRead later
  | _ + 1, .failure failure :: later => .error failure later
  | count + 1, .byte b :: later =>
      match takeExact count later with
      | .ok bytes rest => .ok (b :: bytes) rest
      | .error failure rest => .error failure rest

/-- Bytes which come first are taken first. -/
theorem takeExact_ofBytes_append {bytes : Bytes} {count : Nat}
    (h : bytes.length ≤ count) (events : Events) :
    takeExact count (.ofBytes bytes ++ events) =
      match takeExact (count - bytes.length) events with
      | .ok more rest => .ok (bytes ++ more) rest
      | .error failure rest => .error failure rest := by
  induction bytes generalizing count with
  | nil =>
      rw [List.length_nil, Nat.sub_zero, ofBytes_nil, List.nil_append]
      cases takeExact count events <;> rfl
  | cons b bytes ih =>
      obtain ⟨count, rfl⟩ := Nat.exists_eq_add_of_le' (Nat.le_of_add_left_le h)
      rw [ofBytes_cons, List.cons_append, takeExact, ih (Nat.le_of_succ_le_succ h),
        List.length_cons, Nat.add_sub_add_right]
      cases takeExact (count - bytes.length) events <;> rfl

/-- An end of file leads from the first events to the second. -/
inductive Ends : Events → Events → Prop where
  | found (events : Events) : Ends (.endOfFile :: events) events
  | exhausted : Ends [] []

end Events

theorem Events.Ends.takeExact {before events : Events} (h : before.Ends events)
    {count : Nat} (hcount : count ≠ 0) :
    before.takeExact count = .error .shortRead events := by
  obtain ⟨count, rfl⟩ := Nat.exists_eq_succ_of_ne_zero hcount
  cases h with
  | found => rfl
  | exhausted => rfl

/-- The stream ends or fails here.  This is the failure of an exact read which needs one
byte more, and these are the events which it leaves. -/
inductive Events.FallsShort (failure : Failure) : Events → Events → Prop where
  | ended {events after : Events} (h : events.Ends after) (hfailure : failure = .shortRead) :
      FallsShort failure events after
  | failed (after : Events) : FallsShort failure (.failure failure :: after) after

theorem Events.FallsShort.front_eq_nil {failure : Failure} {before events : Events}
    (h : FallsShort failure before events) : before.front = [] := by
  cases h with
  | ended hends _ =>
      cases hends with
      | found => rfl
      | exhausted => rfl
  | failed => rfl

theorem Events.FallsShort.takeExact {failure : Failure} {before events : Events}
    (h : FallsShort failure before events) {count : Nat} (hcount : count ≠ 0) :
    before.takeExact count = .error failure events := by
  cases h with
  | ended hends hfailure =>
      rw [hfailure]
      exact hends.takeExact hcount
  | failed =>
      obtain ⟨count, rfl⟩ := Nat.exists_eq_succ_of_ne_zero hcount
      rfl

/-- The events of a source.  Interrupted reads are made again, so they are none. -/
def Source.events : Source → Events
  | [] => []
  | .failure failure :: later =>
      if failure.isInterrupted then events later
      else .failure failure :: events later
  | .data bytes :: later =>
      if bytes.isEmpty then .endOfFile :: events later
      else Events.ofBytes bytes ++ events later

/-- The events of a reader: first what is buffered. -/
def Reader.events (reader : Reader) : Events :=
  Events.ofBytes reader.buffer ++ reader.source.events

/-- These events are what is left of the source. -/
def Source.Shows (events : Events) (source : Source) : Prop :=
  source.events = events

/-- These events are what is left of the stream.  The buffer can hold so many bytes. -/
structure Reader.Offers (capacity : Nat) (events : Events) (reader : Reader) : Prop where
  capacity_eq : reader.capacity = capacity
  events_eq : reader.events = events

/-- These events are what is left of the stream, and the buffer can meet them. -/
structure Reader.Shows (events : Events) (reader : Reader) : Prop where
  capacity_pos : 0 < reader.capacity
  events_eq : reader.events = events

theorem Reader.offers (reader : Reader) : reader.Offers reader.capacity reader.events :=
  ⟨rfl, rfl⟩

theorem Reader.Shows.offers {events : Events} {reader : Reader} (h : reader.Shows events) :
    reader.Offers reader.capacity events :=
  ⟨rfl, h.events_eq⟩

theorem Reader.Offers.shows {capacity : Nat} {events : Events} {reader : Reader}
    (h : reader.Offers capacity events) (hcapacity : 0 < capacity) : reader.Shows events :=
  ⟨h.capacity_eq ▸ hcapacity, h.events_eq⟩

/-- How a read ends, given the events before it and a way to tell those after
it. -/
inductive Took {σ : Type} (shows : Events → σ → Prop) (before : Events) :
    EStateM.Result Failure σ Bytes → Prop where
  | bytes {bytes : Bytes} {events : Events} {after : σ} (hbytes : bytes ≠ [])
      (hbefore : before = .ofBytes bytes ++ events) (h : shows events after) :
      Took shows before (.ok bytes after)
  | ended {bytes : Bytes} {events : Events} {after : σ} (hbytes : bytes = [])
      (hends : before.Ends events) (h : shows events after) :
      Took shows before (.ok bytes after)
  | interrupted {failure : Failure} {after : σ}
      (hfailure : failure.isInterrupted = true) (h : shows before after) :
      Took shows before (.error failure after)
  | failed {failure : Failure} {events : Events} {after : σ}
      (hfailure : failure.isInterrupted = false)
      (hbefore : before = .failure failure :: events) (h : shows events after) :
      Took shows before (.error failure after)

/-- Data of which a read takes a part.  The rest is not empty, so it is no end of
file. -/
theorem Source.events_data {bytes : Bytes} (limit : Nat)
    (h : limit < bytes.length) (later : Source) :
    events (.data bytes :: later) =
      .ofBytes (bytes.take limit) ++ events (.data (bytes.drop limit) :: later) := by
  have hbytes : ¬ bytes.isEmpty := by
    rintro hempty
    rw [List.isEmpty_iff.mp hempty] at h
    cases h
  have hrest : ¬ (bytes.drop limit).isEmpty := by
    rw [List.isEmpty_iff, List.drop_eq_nil_iff]
    omega
  rw [events, events, if_neg hbytes, if_neg hrest, ← List.append_assoc,
    ← Events.ofBytes_append, List.take_append_drop]

/-- A read of a source takes from its first event on. -/
theorem Source.took_read {limit : Nat} (hlimit : 0 < limit) (source : Source) :
    Took Source.Shows source.events (source.read limit) := by
  cases source with
  | nil => exact .ended rfl .exhausted rfl
  | cons arrival later =>
      cases arrival with
      | failure failure =>
          rw [events, Source.read]
          cases hfailure : failure.isInterrupted with
          | true => exact .interrupted hfailure rfl
          | false => exact .failed hfailure rfl rfl
      | data bytes =>
          rw [Source.read]
          split
          · cases bytes with
            | nil => exact .ended rfl (.found _) rfl
            | cons b bytes => exact .bytes (List.cons_ne_nil _ _) rfl rfl
          · next hlong =>
              have htaken : bytes.take limit ≠ [] := by
                intro hnil
                rw [List.take_eq_nil_iff] at hnil
                rcases hnil with hzero | hnil
                · omega
                · simp [hnil] at hlong
              exact .bytes htaken (events_data limit (by omega) later) rfl

namespace Reader

variable {capacity : Nat} {events : Events} {reader : Reader}

/-- A reader which holds nothing reads what its source does. -/
theorem Offers.took_source {limit : Nat} (h : reader.Offers capacity events)
    (hbuffer : reader.buffer = []) (hlimit : 0 < limit) :
    Took (fun events source => ({ reader with source } : Reader).Offers capacity events)
      events (reader.source.read limit) := by
  obtain ⟨hcapacity, rfl⟩ := h
  have hempty (source : Source) :
      ({ reader with source } : Reader).events = source.events := by
    simp [Reader.events, hbuffer]
  have htook := Source.took_read hlimit reader.source
  rw [← hempty reader.source] at htook
  generalize reader.source.read limit = result at htook ⊢
  cases htook with
  | bytes hbytes hbefore h =>
      exact .bytes hbytes hbefore ⟨hcapacity, (hempty _).trans h⟩
  | ended hbytes hends h =>
      exact .ended hbytes hends ⟨hcapacity, (hempty _).trans h⟩
  | interrupted hfailure h =>
      exact .interrupted hfailure ⟨hcapacity, (hempty _).trans h⟩
  | failed hfailure hbefore h =>
      exact .failed hfailure hbefore ⟨hcapacity, (hempty _).trans h⟩

/-- How filling a buffer ends. -/
inductive Filled (before : Events) : EStateM.Result Failure Reader Unit → Prop where
  | bytes {after : Reader} (hbuffer : after.buffer ≠ []) (h : after.Shows before) :
      Filled before (.ok () after)
  | ended {events : Events} {after : Reader} (hbuffer : after.buffer = [])
      (hends : before.Ends events) (h : after.Shows events) :
      Filled before (.ok () after)
  | interrupted {failure : Failure} {after : Reader}
      (hfailure : failure.isInterrupted = true) (h : after.Shows before) :
      Filled before (.error failure after)
  | failed {failure : Failure} {events : Events} {after : Reader}
      (hfailure : failure.isInterrupted = false)
      (hbefore : before = .failure failure :: events) (h : after.Shows events) :
      Filled before (.error failure after)

/-- Filling the buffer takes nothing but an end of file or a failure. -/
theorem Shows.filled (h : reader.Shows events) : Filled events reader.fill := by
  unfold fill
  split
  · next hbuffer =>
      have htook := h.offers.took_source hbuffer h.capacity_pos
      cases hread : reader.source.read reader.capacity with
      | ok bytes source =>
          rw [hread] at htook
          cases htook with
          | bytes hbytes hbefore hafter =>
              refine .bytes hbytes ⟨h.capacity_pos, ?_⟩
              rw [hbefore, ← hafter.events_eq]
              simp [Reader.events, hbuffer]
          | ended hbytes hends hafter =>
              refine .ended hbytes hends ⟨h.capacity_pos, ?_⟩
              rw [← hafter.events_eq]
              simp [Reader.events, hbuffer, hbytes]
      | error failure source =>
          rw [hread] at htook
          cases htook with
          | interrupted hfailure hafter =>
              exact .interrupted hfailure (hafter.shows h.capacity_pos)
          | failed hfailure hbefore hafter =>
              exact .failed hfailure hbefore (hafter.shows h.capacity_pos)
  · next hbuffer => exact .bytes hbuffer h

/-- What is consumed comes first. -/
theorem Offers.consume (h : reader.Offers capacity events) (count : Nat) :
    ∃ rest, events = .ofBytes (reader.buffer.take count) ++ rest ∧
      (reader.consume count).Offers capacity rest := by
  obtain ⟨hcapacity, rfl⟩ := h
  refine ⟨(reader.consume count).events, ?_, hcapacity, rfl⟩
  rw [Reader.events, Reader.events, ← List.append_assoc, ← Events.ofBytes_append]
  show _ = Events.ofBytes (reader.buffer.take count ++ reader.buffer.drop count) ++ _
  rw [List.take_append_drop]
  rfl

/-- What the buffer starts with comes first. -/
theorem Shows.consume_prefix (h : reader.Shows events) {bytes : Bytes}
    (hbytes : bytes <+: reader.buffer) :
    ∃ rest, events = .ofBytes bytes ++ rest ∧
      (reader.consume bytes.length).Shows rest := by
  obtain ⟨rest, hrest, hafter⟩ := h.offers.consume bytes.length
  rw [← List.prefix_iff_eq_take.mp hbytes] at hrest
  exact ⟨rest, hrest, hafter.shows h.capacity_pos⟩

/-- A reader which holds something gives from it. -/
theorem read_of_buffer_ne_nil (hbuffer : reader.buffer ≠ []) (limit : Nat) :
    reader.read limit = .ok (reader.buffer.take limit) (reader.consume limit) := by
  rw [read, if_neg fun hdirect => hbuffer hdirect.1, fill, if_neg hbuffer]

/-- A reader which holds nothing reads as much as it can hold, or more if it is asked for,
and keeps what is too much. -/
theorem read_of_buffer_eq_nil (hbuffer : reader.buffer = []) (limit : Nat) :
    reader.read limit =
      match reader.source.read (max limit reader.capacity) with
      | .ok bytes source =>
          .ok (bytes.take limit) { reader with source, buffer := bytes.drop limit }
      | .error failure source => .error failure { reader with source } := by
  by_cases hdirect : reader.capacity ≤ limit
  · rw [read, if_pos ⟨hbuffer, hdirect⟩, Nat.max_eq_left hdirect]
    cases hread : reader.source.read limit with
    | ok bytes source =>
        have hlength := Source.length_of_read_ok hread
        simp only [List.take_of_length_le hlength, List.drop_of_length_le hlength, ← hbuffer]
    | error failure source => rfl
  · rw [read, if_neg fun h => hdirect h.2, fill, if_pos hbuffer,
      Nat.max_eq_right (Nat.le_of_not_le hdirect)]
    cases reader.source.read reader.capacity <;> rfl

/-- A read through the buffer takes from the first event on, like one without. -/
theorem Offers.took_read {limit : Nat} (h : reader.Offers capacity events)
    (hlimit : 0 < limit) : Took (Offers capacity) events (reader.read limit) := by
  have hpart {bytes : Bytes} (hbytes : bytes ≠ []) : bytes.take limit ≠ [] := by
    rw [ne_eq, List.take_eq_nil_iff, not_or]
    exact ⟨Nat.ne_of_gt hlimit, hbytes⟩
  by_cases hbuffer : reader.buffer = []
  · rw [read_of_buffer_eq_nil hbuffer]
    have hmax : 0 < max limit reader.capacity :=
      Nat.lt_of_lt_of_le hlimit (Nat.le_max_left _ _)
    have htook := h.took_source hbuffer hmax
    generalize reader.source.read (max limit reader.capacity) = result at htook
    cases htook with
    | @bytes bytes rest source hbytes hbefore hafter =>
        -- What was not asked for stays in front of the events which are left.
        have hkept : ({ reader with source, buffer := bytes.drop limit } : Reader).events =
            .ofBytes (bytes.drop limit) ++ rest := by
          rw [← hafter.events_eq]
          simp [Reader.events, hbuffer]
        refine .bytes (hpart hbytes) ?_ ⟨hafter.capacity_eq, hkept⟩
        rw [hbefore, ← List.append_assoc, ← Events.ofBytes_append, List.take_append_drop]
    | ended hbytes hends hafter =>
        subst hbytes
        refine .ended List.take_nil hends ⟨hafter.capacity_eq, ?_⟩
        rw [← hafter.events_eq]
        simp [Reader.events, hbuffer]
    | interrupted hfailure hafter => exact .interrupted hfailure hafter
    | failed hfailure hbefore hafter => exact .failed hfailure hbefore hafter
  · rw [read_of_buffer_ne_nil hbuffer]
    obtain ⟨rest, hrest, hafter⟩ := h.consume limit
    exact .bytes (hpart hbuffer) hrest hafter

/-- How an exact read ends. -/
inductive TookExact (capacity count : Nat) (before : Events) :
    EStateM.Result Failure Reader Bytes → Prop where
  | bytes {bytes : Bytes} {events : Events} {after : Reader} (hlength : bytes.length = count)
      (hbefore : before = .ofBytes bytes ++ events) (h : after.Offers capacity events) :
      TookExact capacity count before (.ok bytes after)
  | short {lost : Bytes} {stop events : Events} {failure : Failure} {after : Reader}
      (hlength : lost.length < count) (hbefore : before = .ofBytes lost ++ stop)
      (hstop : stop.FallsShort failure events) (h : after.Offers capacity events) :
      TookExact capacity count before (.error failure after)

/-- An exact read takes so many bytes, or those before the stream ends or fails. -/
theorem Offers.tookExact (h : reader.Offers capacity events) (count : Nat) :
    TookExact capacity count events (reader.readExact count) := by
  fun_induction readExact count reader generalizing events with
  | case1 => exact .bytes rfl rfl h
  | case2 count reader hcount after hread =>
      have htook := h.took_read (Nat.pos_of_ne_zero hcount)
      rw [hread] at htook
      cases htook with
      | bytes hbytes _ _ => exact absurd rfl hbytes
      | ended _ hends hafter =>
          have hnothing : ([] : Bytes).length < count := Nat.pos_of_ne_zero hcount
          exact .short hnothing rfl (.ended hends rfl) hafter
  -- Some bytes are read, and the rest after them.
  | case3 count reader hcount bytes after hread hbytes _ more last hmore ih =>
      have hlength := length_of_read_ok hread
      have htook := h.took_read (Nat.pos_of_ne_zero hcount)
      rw [hread] at htook
      cases htook with
      | ended hnothing _ _ => exact absurd hnothing hbytes
      | bytes _ hbefore hafter =>
          have hrest := ih hafter
          rw [hmore] at hrest
          cases hrest with
          | bytes hmoreLength hmoreBefore hlast =>
              refine .bytes ?_ ?_ hlast
              · rw [List.length_append]
                omega
              · rw [hbefore, hmoreBefore, Events.ofBytes_append, List.append_assoc]
  | case4 count reader hcount bytes after hread hbytes _ failure last hmore ih =>
      have htook := h.took_read (Nat.pos_of_ne_zero hcount)
      rw [hread] at htook
      cases htook with
      | ended hnothing _ _ => exact absurd hnothing hbytes
      | bytes _ hbefore hafter =>
          have hrest := ih hafter
          rw [hmore] at hrest
          cases hrest with
          | @short lost stop _ _ _ hlostLength hlostBefore hstop hlast =>
              have hall : events = .ofBytes (bytes ++ lost) ++ stop := by
                rw [hbefore, hlostBefore, Events.ofBytes_append, List.append_assoc]
              refine .short ?_ hall hstop hlast
              rw [List.length_append]
              omega
  -- An interrupted read has taken nothing, so reading again meets the same events.
  | case5 count reader hcount failure after hread _ hfailure ih =>
      have htook := h.took_read (Nat.pos_of_ne_zero hcount)
      rw [hread] at htook
      cases htook with
      | interrupted _ hafter => exact ih hafter
      | failed hnot _ _ =>
          rw [hfailure] at hnot
          cases hnot
  | case6 count reader hcount failure after hread _ hfailure =>
      have htook := h.took_read (Nat.pos_of_ne_zero hcount)
      rw [hread] at htook
      cases htook with
      | interrupted hyes _ => exact absurd hyes hfailure
      | failed _ hbefore hafter =>
          have hnothing : ([] : Bytes).length < count := Nat.pos_of_ne_zero hcount
          exact .short hnothing hbefore (.failed _) hafter

/-- What an exact read gives comes first. -/
theorem Offers.exists_of_readExact_eq_ok (h : reader.Offers capacity events) {count : Nat}
    {bytes : Bytes} {after : Reader} (hread : reader.readExact count = .ok bytes after) :
    ∃ rest, bytes.length = count ∧ events = .ofBytes bytes ++ rest ∧
      after.Offers capacity rest := by
  have htook := h.tookExact count
  rw [hread] at htook
  cases htook with
  | bytes hlength hbefore hafter => exact ⟨_, hlength, hbefore, hafter⟩

/-- What a failed exact read loses comes first, and then what it fails with. -/
theorem Offers.exists_of_readExact_eq_error (h : reader.Offers capacity events) {count : Nat}
    {failure : Failure} {after : Reader}
    (hread : reader.readExact count = .error failure after) :
    ∃ lost stop rest, lost.length < count ∧ events = .ofBytes lost ++ stop ∧
      stop.FallsShort failure rest ∧ after.Offers capacity rest := by
  have htook := h.tookExact count
  rw [hread] at htook
  cases htook with
  | short hlength hbefore hstop hafter => exact ⟨_, _, _, hlength, hbefore, hstop, hafter⟩

end Reader

/-- A reader and the events it shows come to the same end. -/
inductive Agrees {α : Type} : EStateM.Result Failure Reader α →
    EStateM.Result Failure Events α → Prop where
  | ok {a : α} {after : Reader} {events : Events} (h : after.Shows events) :
      Agrees (.ok a after) (.ok a events)
  | error {failure : Failure} {after : Reader} {events : Events}
      (h : after.Shows events) : Agrees (.error failure after) (.error failure events)

theorem Agrees.exists_ok {α : Type} {a : α} {events : Events}
    {result : EStateM.Result Failure Reader α} (h : Agrees result (.ok a events)) :
    ∃ after, result = .ok a after ∧ after.Shows events := by
  cases h with
  | ok h => exact ⟨_, rfl, h⟩

theorem Agrees.exists_error {α : Type} {failure : Failure} {events : Events}
    {result : EStateM.Result Failure Reader α} (h : Agrees result (.error failure events)) :
    ∃ after, result = .error failure after ∧ after.Shows events := by
  cases h with
  | error h => exact ⟨_, rfl, h⟩

namespace Reader

variable {events : Events} {reader : Reader}

/-- Reading so many bytes is taking them from the events. -/
theorem Shows.agrees_readExact (h : reader.Shows events) (count : Nat) :
    Agrees (reader.readExact count) (events.takeExact count) := by
  have htook := h.offers.tookExact count
  generalize reader.readExact count = result at htook
  cases htook with
  | bytes hlength hbefore hafter =>
      rw [hbefore, Events.takeExact_ofBytes_append (Nat.le_of_eq hlength), hlength,
        Nat.sub_self]
      simp only [Events.takeExact, List.append_nil]
      exact .ok (hafter.shows h.capacity_pos)
  | short hlength hbefore hstop hafter =>
      rw [hbefore, Events.takeExact_ofBytes_append (Nat.le_of_lt hlength),
        hstop.takeExact (Nat.sub_ne_zero_of_lt hlength)]
      exact .error (hafter.shows h.capacity_pos)

/-- As many bytes as there are up to some event are read. -/
theorem Shows.readExact_ofBytes {bytes : Bytes}
    (h : reader.Shows (.ofBytes bytes ++ events)) :
    ∃ after, reader.readExact bytes.length = .ok bytes after ∧ after.Shows events := by
  have hagrees := h.agrees_readExact bytes.length
  rw [Events.takeExact_ofBytes_append (Nat.le_refl _), Nat.sub_self] at hagrees
  simp only [Events.takeExact, List.append_nil] at hagrees
  exact hagrees.exists_ok

theorem Shows.readExact_one {b : UInt8} (h : reader.Shows (.byte b :: events)) :
    ∃ after, reader.readExact 1 = .ok [b] after ∧ after.Shows events := by
  have hagrees := h.agrees_readExact 1
  exact hagrees.exists_ok

end Reader

end Transport

end StreamingHttp
