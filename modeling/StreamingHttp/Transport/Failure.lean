/-!
# Failures of a transport

Why a stream could not be read or written.  Most failures come from the stream
itself, with a text of its own; three are found by the operations built on it.
An `interrupted` call is no failure of the stream: it is made again by the
operations which say so.
-/

namespace StreamingHttp

namespace Transport

/-- The kinds of failures. -/
inductive FailureKind where
  | unexpectedEof
  | connectionReset
  | connectionAborted
  | timedOut
  | wouldBlock
  | interrupted
  | brokenPipe
  | writeZero
  | other
  deriving DecidableEq, Repr

/-- A failure with its text. -/
structure Failure where
  kind : FailureKind
  message : String
  deriving DecidableEq, Repr

namespace Failure

/-- The stream ended inside a line, or before it. -/
def connectionClosed : Failure :=
  ⟨.unexpectedEof, "connection closed"⟩

/-- The stream ended before so many bytes as were asked for. -/
def shortRead : Failure :=
  ⟨.unexpectedEof, "failed to fill whole buffer"⟩

/-- The stream accepted none of the bytes which were offered. -/
def nothingWritten : Failure :=
  ⟨.writeZero, "failed to write whole buffer"⟩

/-- Whether the call is made again. -/
def isInterrupted (failure : Failure) : Bool :=
  failure.kind == .interrupted

end Failure

end Transport

end StreamingHttp
