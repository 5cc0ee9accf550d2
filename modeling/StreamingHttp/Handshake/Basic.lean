import StreamingHttp.Entity.Block
import StreamingHttp.Handshake.Fault
import StreamingHttp.Transport.Sink

/-!
# Handshake

The two halves of a handshake.

* `send` writes the head of a request and flushes it.
* `receive` reads the status line and the header block of the response.  The
  status line is read without the white space at its end; version and code end
  at a space each, and the rest is the reason.  The version has to start with
  `HTTP` and the code has to be `200`, in this order.
-/

namespace StreamingHttp

namespace Handshake

open Transport

/-- Writes the head of a request and flushes it. -/
def send (request : Request) (sink : Sink) : EStateM.Result Fault Sink Unit :=
  match request.head with
  | .error fault => .error (.request fault) sink
  | .ok head =>
      match sink.writeAll head with
      | .error failure after => .error (.io failure) after
      | .ok () after =>
          match after.flush with
          | .error failure last => .error (.io failure) last
          | .ok () last => .ok () last

/-- What a version starts with. -/
def versionMark : Bytes := Utf8.ofString "HTTP"

/-- The status code of success. -/
def successCode : Bytes := Utf8.ofString "200"

/-- Asks for success in a status line. -/
def checkStatus (line : Bytes) : Except Fault Unit :=
  let (version, rest) :=
    Delimited.cut Byte.space (Bytes.trimEnd Byte.isSpace line)
  let (code, reason) := Delimited.cut Byte.space (rest.getD [])
  if ¬ versionMark.isPrefixOf version then .error .notHttp
  else if code ≠ successCode then
    .error (.badStatus (Utf8.lossy code) (Utf8.lossy (reason.getD [])))
  else .ok ()

/-- Reads the head of a response. -/
def receive (maxLine : Nat) (reader : Reader) :
    EStateM.Result Fault Reader EntityFields :=
  match reader.line maxLine with
  | .error failure after => .error (.resetBeforeResponse failure) after
  | .ok line after =>
      match checkStatus line with
      | .error fault => .error fault after
      | .ok () =>
          match EntityFields.read maxLine after with
          | .error failure last => .error (.resetOnHeaders failure) last
          | .ok fields last => .ok fields last

end Handshake

end StreamingHttp
