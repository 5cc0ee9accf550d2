import StreamingHttp.Proofs.Lines
import StreamingHttp.Proofs.Transport.Events
import StreamingHttp.Transport.Line

/-!
# Lines of a stream

Reading a line takes events up to the first line feed, the limit, an end of file or
a failure, whichever comes first.  `Events.takeLine` says so without a buffer, and
`agrees_collectLine` shows that a reader does the same.

A line which is not longer than the limit is read whole.  Of a line which an end of file
or a failure cuts short nothing is read, unless the limit comes first.  Every stream is
bytes up to such a stop (`Events.exists_stopsWith`).
-/

namespace StreamingHttp

namespace Transport

namespace Events

/-- Takes bytes through the first line feed, `limit` of them at most.  What is taken
before a failure is kept. -/
def takeLine : Nat → Events → Bytes × EStateM.Result Failure Events Unit
  | 0, events => ([], .ok () events)
  | _ + 1, [] => ([], .ok () [])
  | _ + 1, .endOfFile :: later => ([], .ok () later)
  | _ + 1, .failure failure :: later => ([], .error failure later)
  | limit + 1, .byte b :: later =>
      if b = Byte.lf then ([b], .ok () later)
      else (b :: (takeLine limit later).1, (takeLine limit later).2)

theorem Ends.takeLine {before events : Events} (h : before.Ends events)
    {limit : Nat} (hlimit : limit ≠ 0) :
    before.takeLine limit = ([], .ok () events) := by
  obtain ⟨limit, rfl⟩ := Nat.exists_eq_succ_of_ne_zero hlimit
  cases h with
  | found => rfl
  | exhausted => rfl

/-- Bytes without a line feed are part of the line. -/
theorem takeLine_ofBytes_append {bytes : Bytes} (hbytes : Byte.lf ∉ bytes)
    {limit : Nat} (hlimit : bytes.length ≤ limit) (events : Events) :
    takeLine limit (.ofBytes bytes ++ events) =
      (bytes ++ (takeLine (limit - bytes.length) events).1,
        (takeLine (limit - bytes.length) events).2) := by
  induction bytes generalizing limit with
  | nil => rfl
  | cons b bytes ih =>
      rw [List.mem_cons, not_or] at hbytes
      obtain ⟨limit, rfl⟩ := Nat.exists_eq_add_of_le' (Nat.le_of_add_left_le hlimit)
      rw [ofBytes_cons, List.cons_append, takeLine, if_neg (Ne.symm hbytes.1),
        ih hbytes.2 (Nat.le_of_succ_le_succ hlimit), List.length_cons,
        Nat.add_sub_add_right]
      rfl

/-- A line which the limit allows is taken whole. -/
theorem takeLine_line_append {line : Bytes} (hline : Bytes.IsLine line) {limit : Nat}
    (hlimit : line.length ≤ limit) (events : Events) :
    takeLine limit (.ofBytes line ++ events) = (line, .ok () events) := by
  obtain ⟨body, hbody, rfl⟩ := hline
  rw [List.length_append, List.length_singleton] at hlimit
  rw [ofBytes_append, List.append_assoc, takeLine_ofBytes_append hbody (by omega)]
  obtain ⟨rest, hrest⟩ : ∃ rest, limit - body.length = rest + 1 :=
    Nat.exists_eq_add_of_le' (by omega)
  rw [hrest]
  rfl

end Events

namespace Reader

variable {events : Events} {reader : Reader}

/-- Collecting a line is taking it from the events. -/
theorem Shows.agrees_collectLine (h : reader.Shows events) (limit : Nat) :
    (reader.collectLine limit).line = (events.takeLine limit).1 ∧
      Agrees (reader.collectLine limit).result (events.takeLine limit).2 := by
  fun_induction collectLine limit reader generalizing events with
  | case1 => exact ⟨rfl, .ok h⟩
  | case2 limit reader hlimit failure after hfill hfailure ih =>
      have hfilled := h.filled
      rw [hfill] at hfilled
      cases hfilled with
      | interrupted _ hafter => exact ih hafter
      | failed hnot _ _ =>
          rw [hfailure] at hnot
          cases hnot
  | case3 limit reader hlimit failure after hfill hfailure =>
      have hfilled := h.filled
      rw [hfill] at hfilled
      obtain ⟨limit, rfl⟩ := Nat.exists_eq_succ_of_ne_zero hlimit
      cases hfilled with
      | interrupted hyes _ => exact absurd hyes hfailure
      | failed _ hbefore hafter =>
          rw [hbefore]
          exact ⟨rfl, .error hafter⟩
  -- The buffer holds the line feed.
  | case4 limit reader hlimit after hfill line rest hsplit =>
      have hfilled := h.filled
      rw [hfill] at hfilled
      have havailable := Bytes.append_eq_of_splitLine? hsplit
      have hline : line <+: after.buffer :=
        List.IsPrefix.trans ⟨rest, havailable⟩ (List.take_prefix limit after.buffer)
      have hlength : line.length ≤ limit := by
        have := congrArg List.length havailable
        rw [available, List.length_append, List.length_take] at this
        omega
      cases hfilled with
      | bytes _ hafter =>
          obtain ⟨later, rfl, hlater⟩ := hafter.consume_prefix hline
          rw [Events.takeLine_line_append (Bytes.isLine_of_splitLine? hsplit) hlength]
          exact ⟨rfl, .ok hlater⟩
      | ended hbuffer _ _ =>
          rw [hbuffer, List.prefix_nil] at hline
          exact absurd hline (Bytes.ne_nil_of_splitLine? hsplit)
  | case5 limit reader hlimit after hfill hsplit hnothing =>
      have hfilled := h.filled
      rw [hfill] at hfilled
      rw [available, List.take_eq_nil_iff] at hnothing
      cases hfilled with
      | bytes hbuffer _ =>
          rcases hnothing with hzero | hnil
          · exact absurd hzero hlimit
          · exact absurd hnil hbuffer
      | ended _ hends hafter =>
          rw [hends.takeLine hlimit]
          exact ⟨rfl, .ok hafter⟩
  -- The buffer is used up before a line feed, and the line goes on.
  | case6 limit reader hlimit after hfill hsplit hsome more =>
      rename_i ih
      have hfilled := h.filled
      rw [hfill] at hfilled
      have hstarts : after.available limit <+: after.buffer :=
        List.take_prefix limit after.buffer
      have hlength : (after.available limit).length ≤ limit := by
        rw [available, List.length_take]
        exact Nat.min_le_left _ _
      cases hfilled with
      | bytes _ hafter =>
          obtain ⟨later, rfl, hlater⟩ := hafter.consume_prefix hstarts
          obtain ⟨hline, hagrees⟩ := ih hlater
          rw [Events.takeLine_ofBytes_append (Bytes.notMem_of_splitLine? hsplit) hlength]
          exact ⟨congrArg _ hline, hagrees⟩
      | ended hbuffer _ _ =>
          rw [available, hbuffer, List.take_nil] at hsome
          exact absurd rfl hsome

/-- What is taken from the events is read, if it is a whole line. -/
theorem Shows.readLine_of_takeLine {maxLine : Nat} {line : Bytes} {rest : Events}
    (h : reader.Shows events)
    (htake : events.takeLine (lineLimit maxLine) = (line, .ok () rest))
    (hwhole : LineRead.isWhole (lineLimit maxLine) line = true) :
    ∃ after, reader.readLine maxLine = ⟨line, .ok () after⟩ ∧ after.Shows rest := by
  obtain ⟨hcollected, hagrees⟩ := h.agrees_collectLine (lineLimit maxLine)
  rw [htake] at hcollected hagrees
  dsimp only at hcollected hagrees
  obtain ⟨after, hresult, hafter⟩ := hagrees.exists_ok
  have hcollect : reader.collectLine (lineLimit maxLine) = ⟨line, .ok () after⟩ := by
    rw [← hresult, ← hcollected]
  refine ⟨after, ?_, hafter⟩
  rw [readLine, hcollect]
  simp only [LineRead.checked, hwhole, if_true]

/-- A line which is not longer than the limit is read whole. -/
theorem Shows.line_of_isLine {line : Bytes}
    (h : reader.Shows (.ofBytes line ++ events)) (hline : Bytes.IsLine line)
    {maxLine : Nat} (hlength : line.length ≤ lineLimit maxLine) :
    ∃ after, reader.line maxLine = .ok line after ∧ after.Shows events := by
  have hwhole : LineRead.isWhole (lineLimit maxLine) line = true := by
    obtain ⟨body, -, rfl⟩ := hline
    simp [LineRead.isWhole]
  obtain ⟨after, hread, hafter⟩ := h.readLine_of_takeLine
    (Events.takeLine_line_append hline hlength events) hwhole
  exact ⟨after, by rw [Reader.line, hread], hafter⟩

end Reader

/-! ### Lines which are cut short -/

namespace Events

/-- The stream ends or fails here.  This is the failure of a line which needs one byte
more, and these are the events which it leaves. -/
inductive StopsWith : Failure → Events → Events → Prop where
  | ended {events after : Events} (h : events.Ends after) :
      StopsWith .connectionClosed events after
  | failed (failure : Failure) (after : Events) :
      StopsWith failure (.failure failure :: after) after

/-- Every stream is bytes up to such a stop. -/
theorem exists_stopsWith (events : Events) :
    ∃ text before failure after, events = ofBytes text ++ before ∧
      StopsWith failure before after := by
  induction events with
  | nil => exact ⟨[], [], _, _, rfl, .ended .exhausted⟩
  | cons event later ih =>
      cases event with
      | byte b =>
          obtain ⟨text, before, failure, after, rfl, hstop⟩ := ih
          exact ⟨b :: text, before, failure, after, rfl, hstop⟩
      | endOfFile => exact ⟨[], _, _, _, rfl, .ended (.found later)⟩
      | failure failure => exact ⟨[], _, _, _, rfl, .failed failure later⟩

end Events

namespace Reader

variable {reader : Reader} {before after : Events} {failure : Failure}

/-- Of a line which stops before its line feed and before the limit, the bytes up to the
stop are kept. -/
theorem Shows.readLine_of_stopsWith {text : Bytes}
    (h : reader.Shows (.ofBytes text ++ before)) (htext : Byte.lf ∉ text)
    {maxLine : Nat} (hlength : text.length < lineLimit maxLine)
    (hstop : Events.StopsWith failure before after) :
    ∃ last, reader.readLine maxLine = ⟨text, .error failure last⟩ ∧ last.Shows after := by
  obtain ⟨hcollected, hagrees⟩ := h.agrees_collectLine (lineLimit maxLine)
  rw [Events.takeLine_ofBytes_append htext (Nat.le_of_lt hlength)] at hcollected hagrees
  obtain ⟨room, hroom⟩ : ∃ room, lineLimit maxLine - text.length = room + 1 :=
    Nat.exists_eq_add_of_le' (by omega)
  rw [hroom] at hcollected hagrees
  rw [readLine]
  generalize reader.collectLine (lineLimit maxLine) = read at hcollected hagrees
  obtain ⟨line, result⟩ := read
  dsimp only at hcollected hagrees
  cases hstop with
  | ended hends =>
      rw [hends.takeLine (Nat.succ_ne_zero room)] at hcollected hagrees
      rw [List.append_nil] at hcollected
      subst hcollected
      obtain ⟨last, rfl, hlast⟩ := hagrees.exists_ok
      -- What was read before the end of file is no whole line.
      have hpart : LineRead.isWhole (lineLimit maxLine) line = false := by
        have hshort : line.length ≠ lineLimit maxLine := Nat.ne_of_lt hlength
        have hlast : line.getLast? ≠ some Byte.lf :=
          fun hmem => htext (List.mem_of_getLast? hmem)
        simp [LineRead.isWhole, hshort, hlast]
      refine ⟨last, ?_, hlast⟩
      simp only [LineRead.checked, hpart, Bool.false_eq_true, if_false]
  | failed =>
      rw [Events.takeLine] at hcollected hagrees
      rw [List.append_nil] at hcollected
      cases hagrees with
      | error hlast => exact ⟨_, by rw [LineRead.checked, hcollected], hlast⟩

/-- Such a line is not read. -/
theorem Shows.line_of_stopsWith {text : Bytes}
    (h : reader.Shows (.ofBytes text ++ before)) (htext : Byte.lf ∉ text)
    {maxLine : Nat} (hlength : text.length < lineLimit maxLine)
    (hstop : Events.StopsWith failure before after) :
    ∃ last, reader.line maxLine = .error failure last ∧ last.Shows after := by
  obtain ⟨last, hread, hlast⟩ := h.readLine_of_stopsWith htext hlength hstop
  exact ⟨last, by rw [Reader.line, hread], hlast⟩

end Reader

end Transport

end StreamingHttp
