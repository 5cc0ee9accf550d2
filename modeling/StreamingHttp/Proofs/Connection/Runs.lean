import StreamingHttp.Connection

/-!
# Runs of a connection

A caller performs operations on a connection one after the other, whether or not they
fail.  An operation gives the caller an answer and leaves the connection which the next
one finds.

The caller may also reach through to the reader and to the stream under it.  What happens
there is not restricted: bytes may be read in any way, and a stream whose flush failed may
be flushed again with another end.
-/

namespace StreamingHttp

open Transport

namespace Connection

/-- What the caller of an operation gets. -/
def answerOf {ε α : Type} : EStateM.Result ε Connection α → Except ε α
  | .ok a _ => .ok a
  | .error fault _ => .error fault

/-- The connection which an operation leaves. -/
def leftBy {ε α : Type} : EStateM.Result ε Connection α → Connection
  | .ok _ after => after
  | .error _ after => after

/-- What a caller does with a connection. -/
inductive Operation where
  | handshake (request : Request)
  | nextPart (boundary : Bytes)
  | findBoundary (boundary : Bytes) (saved : Option Bytes)
  | readExact (count : Nat)
  | readToEnd
  /-- Anything done to the reader and to the stream, past the connection. -/
  | reachThrough (effect : Reader × Sink → Reader × Sink)

/-- The connection after an operation. -/
def perform (connection : Connection) : Operation → Connection
  | .handshake request => leftBy (connection.handshake request)
  | .nextPart boundary => leftBy (connection.nextPart boundary)
  | .findBoundary boundary saved => leftBy (connection.findBoundary boundary saved).2
  | .readExact count => leftBy (connection.readExact count)
  | .readToEnd => leftBy connection.readToEnd.2
  | .reachThrough effect =>
      let (reader, sink) := effect (connection.reader, connection.sink)
      { connection with reader, sink }

/-- The connection after operations, performed one after the other. -/
def run (connection : Connection) (operations : List Operation) : Connection :=
  operations.foldl perform connection

end Connection

end StreamingHttp
