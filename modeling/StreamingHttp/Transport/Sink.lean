import StreamingHttp.Bytes
import StreamingHttp.Transport.Failure

/-!
# Sinks

A sink is what the writes of a stream will meet, in order: each accepts so many
bytes at most, or fails.  After the last of them everything is accepted.  The
sink also keeps the bytes which it has accepted.

`writeAll` writes until all bytes are accepted.  Interrupted writes are made
again; a write which accepts none fails.  Flushing fails every time or never.
-/

namespace StreamingHttp

namespace Transport

/-- What a write meets. -/
inductive Acceptance where
  /-- So many bytes are accepted at most. -/
  | upTo (count : Nat)
  | failure (failure : Failure)
  deriving DecidableEq, Repr

/-- What the writes of a stream will meet. -/
structure Sink where
  acceptances : List Acceptance := []
  flushFailure : Option Failure := none
  /-- All bytes accepted so far. -/
  written : Bytes := []
  deriving DecidableEq, Repr

namespace Sink

/-- What became of bytes which were to be written. -/
structure Progress where
  accepted : Bytes
  result : Except Failure Unit
  /-- What later writes will meet. -/
  later : List Acceptance

/-- Writes until all bytes are accepted. -/
def offer : List Acceptance → Bytes → Progress
  | later, [] => ⟨[], .ok (), later⟩
  | [], bytes => ⟨bytes, .ok (), []⟩
  | .failure failure :: later, bytes =>
      if failure.isInterrupted then offer later bytes
      else ⟨[], .error failure, later⟩
  | .upTo count :: later, bytes =>
      if count = 0 then ⟨[], .error .nothingWritten, later⟩
      else
        let more := offer later (bytes.drop count)
        { more with accepted := bytes.take count ++ more.accepted }

/-- Writes until all bytes are accepted. -/
def writeAll (bytes : Bytes) (sink : Sink) : EStateM.Result Failure Sink Unit :=
  let progress := offer sink.acceptances bytes
  let after := { sink with
    acceptances := progress.later
    written := sink.written ++ progress.accepted }
  match progress.result with
  | .ok () => .ok () after
  | .error failure => .error failure after

/-- Hands on what was accepted. -/
def flush (sink : Sink) : EStateM.Result Failure Sink Unit :=
  match sink.flushFailure with
  | none => .ok () sink
  | some failure => .error failure sink

end Sink

end Transport

end StreamingHttp
