import StreamingHttp.Proofs.Connection.Runs
import StreamingHttp.Proofs.Transport.Writing

/-!
# How a request is sent

A handshake sends the head of its request before it reads anything.

* A request which has no head fails before the stream is touched.
* Writing which breaks off leaves the first bytes of the head in the stream.
* Writing which does not break off leaves the whole head there, once.  What is left to
  fail before the response is flushing, which is tried once.

Only the second of these and a failed flush end the handshake with an `io` fault, because
every stage of reading has a fault of its own.
-/

namespace StreamingHttp

open Transport

namespace Handshake

variable {request : Request} {head : Bytes} {sink : Sink} {failure : Failure}
  {accepted : Nat}

theorem send_of_breaksOff (hhead : request.head = .ok head)
    (h : Sink.BreaksOff sink.acceptances head.length accepted failure) :
    ∃ after, send request sink = .error (.io failure) after ∧
      after.written = sink.written ++ head.take accepted := by
  obtain ⟨after, hwrite, hwritten⟩ := Sink.writeAll_of_breaksOff h
  refine ⟨after, ?_, hwritten⟩
  simp only [send, hhead, hwrite]

/-- What is written whole is flushed. -/
theorem send_of_not_breaksOff (hhead : request.head = .ok head)
    (h : ∀ accepted failure, ¬ Sink.BreaksOff sink.acceptances head.length accepted failure) :
    ∃ after, after.written = sink.written ++ head ∧
      send request sink =
        match sink.flushFailure with
        | none => .ok () after
        | some failure => .error (.io failure) after := by
  obtain ⟨after, hwrite, hwritten, hflush⟩ := Sink.writeAll_of_not_breaksOff h
  refine ⟨after, hwritten, ?_⟩
  simp only [send, hhead, hwrite, Sink.flush, hflush]
  cases sink.flushFailure with
  | none => rfl
  | some failure => rfl

/-- Writing or flushing which fails ends sending, with the first bytes of the head
written.  All of them are if it was flushing that failed. -/
theorem send_of_failsOn (hhead : request.head = .ok head)
    (h : sink.FailsOn head.length failure) :
    ∃ sent after, sent <+: head ∧ send request sink = .error (.io failure) after ∧
      after.written = sink.written ++ sent := by
  rcases h with ⟨accepted, hbreaks⟩ | ⟨hwhole, hflush⟩
  · obtain ⟨after, hsend, hwritten⟩ := send_of_breaksOff hhead hbreaks
    exact ⟨_, after, List.take_prefix accepted head, hsend, hwritten⟩
  · obtain ⟨after, hwritten, hsend⟩ := send_of_not_breaksOff hhead hwhole
    rw [hflush] at hsend
    exact ⟨head, after, List.prefix_refl head, hsend, hwritten⟩

theorem send_of_not_failsOn (hhead : request.head = .ok head)
    (h : ∀ failure, ¬ sink.FailsOn head.length failure) :
    ∃ after, send request sink = .ok () after ∧ after.written = sink.written ++ head := by
  have hwhole : ∀ accepted failure,
      ¬ Sink.BreaksOff sink.acceptances head.length accepted failure :=
    fun accepted failure hbreaks => h failure (.inl ⟨accepted, hbreaks⟩)
  obtain ⟨after, hwritten, hsend⟩ := send_of_not_breaksOff hhead hwhole
  refine ⟨after, ?_, hwritten⟩
  cases hflush : sink.flushFailure with
  | none => rw [hsend, hflush]
  | some failure => exact absurd (.inr ⟨hwhole, hflush⟩) (h failure)

/-- A fault of the status line is none of the stream's. -/
theorem checkStatus_ne_error_io (line : Bytes) (failure : Failure) :
    checkStatus line ≠ .error (.io failure) := by
  intro h
  simp only [checkStatus] at h
  split at h
  · cases h
  · split at h
    · cases h
    · cases h

/-- Reading has faults of its own. -/
theorem receive_ne_error_io (maxLine : Nat) (reader after : Reader) (failure : Failure) :
    receive maxLine reader ≠ .error (.io failure) after := by
  intro h
  rw [receive] at h
  split at h
  · cases h
  · next line middle _ =>
      split at h
      · next fault hstatus =>
          cases h
          exact checkStatus_ne_error_io line failure hstatus
      · split at h
        · cases h
        · cases h

end Handshake

namespace Connection

variable {request : Request} {connection : Connection} {sink : Sink}

/-- A request which cannot be sent leaves the connection alone. -/
theorem handshake_of_send_error {fault : Handshake.Fault}
    (h : Handshake.send request connection.sink = .error fault sink) :
    connection.handshake request = .error fault { connection with sink } := by
  rw [handshake, h]

/-- Behind a request which is sent, reading does not touch the stream's other side. -/
theorem handshake_of_send_ok (h : Handshake.send request connection.sink = .ok () sink) :
    (leftBy (connection.handshake request)).sink = sink ∧
      ∀ failure, answerOf (connection.handshake request) ≠ .error (.io failure) := by
  rw [handshake, h]
  dsimp only
  cases hreceive : Handshake.receive connection.settings.maxLineLength connection.reader with
  | ok fields reader =>
      refine ⟨rfl, fun failure hanswer => ?_⟩
      cases hanswer
  | error fault reader =>
      refine ⟨rfl, fun failure hanswer => ?_⟩
      cases hanswer
      exact Handshake.receive_ne_error_io _ _ _ failure hreceive

/-- A handshake whose writing or flushing fails ends with this failure, and nothing has been
read. -/
theorem handshake_of_failsOn {head : Bytes} {failure : Failure}
    (hhead : request.head = .ok head) (h : connection.sink.FailsOn head.length failure) :
    ∃ sent sink, sent <+: head ∧ sink.written = connection.sink.written ++ sent ∧
      connection.handshake request = .error (.io failure) { connection with sink } := by
  obtain ⟨sent, sink, hprefix, hsend, hwritten⟩ := Handshake.send_of_failsOn hhead h
  exact ⟨sent, sink, hprefix, hwritten, handshake_of_send_error hsend⟩

/-- Any other handshake sends the whole head, and has none of these failures. -/
theorem handshake_of_not_failsOn {head : Bytes} (hhead : request.head = .ok head)
    (h : ∀ failure, ¬ connection.sink.FailsOn head.length failure) :
    (leftBy (connection.handshake request)).sink.written = connection.sink.written ++ head ∧
      ∀ failure, answerOf (connection.handshake request) ≠ .error (.io failure) := by
  obtain ⟨sink, hsend, hwritten⟩ := Handshake.send_of_not_failsOn hhead h
  obtain ⟨hsink, hanswer⟩ := handshake_of_send_ok hsend
  exact ⟨by rw [hsink, hwritten], hanswer⟩

/-- A handshake ends with an `io` fault iff writing the head or flushing it fails. -/
theorem answerOf_handshake_eq_io_iff {head : Bytes} (hhead : request.head = .ok head)
    (failure : Failure) :
    answerOf (connection.handshake request) = .error (.io failure) ↔
      connection.sink.FailsOn head.length failure := by
  constructor
  · intro hanswer
    by_cases hfails : ∃ other, connection.sink.FailsOn head.length other
    · obtain ⟨other, hother⟩ := hfails
      obtain ⟨_, _, _, _, hhandshake⟩ := handshake_of_failsOn hhead hother
      rw [hhandshake] at hanswer
      cases hanswer
      exact hother
    · have hnone := (handshake_of_not_failsOn hhead (not_exists.mp hfails)).2
      exact absurd hanswer (hnone failure)
  · intro hfails
    obtain ⟨_, _, _, _, hhandshake⟩ := handshake_of_failsOn hhead hfails
    rw [hhandshake]
    rfl

/-- A request which has no head fails with its fault and changes nothing.  Of any other
one the first bytes of the head are added to the stream, and all of them unless the
handshake ends with an `io` fault.  It does so iff writing the head or flushing it fails,
with that failure, and then nothing has been read and the fields are kept. -/
theorem handshake_sends_head (request : Request) (connection : Connection) :
    let answer := answerOf (connection.handshake request)
    let after := leftBy (connection.handshake request)
    (∀ fault, request.head = .error fault →
      answer = .error (.request fault) ∧ after = connection) ∧
    ∀ head, request.head = .ok head →
      (∃ sent, sent <+: head ∧ after.sink.written = connection.sink.written ++ sent ∧
        ((∀ failure, answer ≠ .error (.io failure)) → sent = head)) ∧
      (∀ failure,
        answer = .error (.io failure) ↔ connection.sink.FailsOn head.length failure) ∧
      ∀ failure, answer = .error (.io failure) →
        after = { connection with sink := after.sink } := by
  intro answer after
  refine ⟨fun fault hfault => ?_, fun head hhead => ⟨?_, ?_, fun failure hio => ?_⟩⟩
  · have hsend : Handshake.send request connection.sink =
        .error (.request fault) connection.sink := by
      simp only [Handshake.send, hfault]
    have hhandshake := handshake_of_send_error hsend
    exact ⟨congrArg answerOf hhandshake, congrArg leftBy hhandshake⟩
  · by_cases hfails : ∃ failure, connection.sink.FailsOn head.length failure
    · obtain ⟨failure, hfails⟩ := hfails
      obtain ⟨sent, sink, hprefix, hwritten, hhandshake⟩ := handshake_of_failsOn hhead hfails
      have hafter : after = { connection with sink } := congrArg leftBy hhandshake
      refine ⟨sent, hprefix, by rw [hafter]; exact hwritten, fun hnot => ?_⟩
      exact absurd ((answerOf_handshake_eq_io_iff hhead failure).mpr hfails) (hnot failure)
    · have hwritten := (handshake_of_not_failsOn hhead (not_exists.mp hfails)).1
      exact ⟨head, List.prefix_refl head, hwritten, fun _ => rfl⟩
  · exact answerOf_handshake_eq_io_iff hhead
  · have hfails := (answerOf_handshake_eq_io_iff hhead failure).mp hio
    obtain ⟨_, sink, _, _, hhandshake⟩ := handshake_of_failsOn hhead hfails
    have hafter : after = { connection with sink } := congrArg leftBy hhandshake
    rw [hafter]

/-- An interrupted write and a short one, and then one which accepts nothing: five bytes
of the head are sent, and the response is not looked at. -/
theorem handshake_sends_head_up_to_refusal :
    let request : Request := ⟨"h", 80, none, ""⟩
    let connection : Connection :=
      { reader := { source := [.data (Utf8.ofString "HTTP/1.1 200 OK\r\n\r\n")] }
        sink :=
          { acceptances := [.upTo 2, .failure ⟨.interrupted, ""⟩, .upTo 3, .upTo 0]
            written := Utf8.ofString "old" }
        fields := { contentType := Utf8.ofString "a/b" } }
    connection.sink.FailsOn 27 .nothingWritten ∧
      answerOf (connection.handshake request) = .error (.io .nothingWritten) ∧
      leftBy (connection.handshake request) =
        { connection with sink := { written := Utf8.ofString "oldGET /" } } := by
  intro request connection
  have hfault : request.fault? = none := by decide
  have hhead : request.head = .ok (Utf8.ofString "GET / HTTP/1.1\r\nHost: h\r\n\r\n") := by
    rw [Request.head, hfault]
    exact congrArg Except.ok (by decide)
  have hfails : connection.sink.FailsOn 27 .nothingWritten :=
    .inl ⟨5, [.upTo 2, .failure ⟨.interrupted, ""⟩, .upTo 3], .upTo 0, [], rfl,
      by decide, rfl, rfl, by decide⟩
  obtain ⟨-, hio, hunread⟩ := (handshake_sends_head request connection).2 _ hhead
  have hlength : (Utf8.ofString "GET / HTTP/1.1\r\nHost: h\r\n\r\n").length = 27 := by decide
  have hanswer := (hio .nothingWritten).mpr (hlength ▸ hfails)
  have hsink : (leftBy (connection.handshake request)).sink =
      { written := Utf8.ofString "oldGET /" } := by
    rw [handshake, Handshake.send, hhead]
    decide
  refine ⟨hfails, hanswer, ?_⟩
  rw [hunread _ hanswer, hsink]

end Connection

end StreamingHttp
