import StreamingHttp.Request.Head
import StreamingHttp.Transport.Failure

/-!
# How a handshake fails

A handshake sends a request and reads the head of the response.  A fault tells
the first stage which failed, with its cause.
-/

namespace StreamingHttp

namespace Handshake

open Transport

/-- Why a handshake failed. -/
inductive Fault where
  /-- The request could not be written. -/
  | io (failure : Failure)
  /-- The request cannot be sent. -/
  | request (fault : Request.Fault)
  /-- The status line could not be read. -/
  | resetBeforeResponse (failure : Failure)
  /-- The status line does not start with `HTTP`. -/
  | notHttp
  /-- The status is not 200. -/
  | badStatus (code reason : String)
  /-- The header block could not be read. -/
  | resetOnHeaders (failure : Failure)
  deriving DecidableEq, Repr

namespace Fault

/-- The wording of a fault. -/
def message : Fault → String
  | .io failure => s!"IO error: {failure.message}"
  | .request fault => s!"bad request header: {fault.message}"
  | .resetBeforeResponse failure =>
      s!"disconnected before response: {failure.message}"
  | .notHttp => "did not receive HTTP response"
  | .badStatus code reason => s!"received {code} {reason} response"
  | .resetOnHeaders failure =>
      s!"disconnected during headers: {failure.message}"

/-- Whether the peer went away, rather than sent something else. -/
def isDisconnect : Fault → Bool
  | .io _ | .resetBeforeResponse _ | .resetOnHeaders _ => true
  | .request _ | .notHttp | .badStatus _ _ => false

end Fault

end Handshake

end StreamingHttp
