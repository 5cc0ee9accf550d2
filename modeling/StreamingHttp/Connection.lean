import StreamingHttp.Handshake.Basic
import StreamingHttp.Part.Next
import StreamingHttp.Settings

/-!
# Connections

A connection reads responses through a buffered reader and writes requests
straight to the stream.  It keeps the fields of the header block which was read
last, of a response or of a part; whatever fails leaves them as they were.
-/

namespace StreamingHttp

open Transport

/-- A connection to a server. -/
structure Connection where
  reader : Reader
  sink : Sink
  settings : Settings := {}
  /-- The fields of the response or of the last part read. -/
  fields : EntityFields := {}
  deriving DecidableEq, Repr

namespace Connection

/-- The connection over a stream. -/
def new (source : Source) (sink : Sink) (settings : Settings) : Connection where
  reader := { source }
  sink := sink
  settings := settings

/-- Sends a request and reads the head of its response. -/
def handshake (request : Request) (connection : Connection) :
    EStateM.Result Handshake.Fault Connection Unit :=
  match Handshake.send request connection.sink with
  | .error fault sink => .error fault { connection with sink }
  | .ok () sink =>
      match Handshake.receive connection.settings.maxLineLength
          connection.reader with
      | .error fault reader => .error fault { connection with sink, reader }
      | .ok fields reader => .ok () { connection with sink, reader, fields }

/-- The length of the response or of the last part read, if it is stated. -/
def contentLength? (connection : Connection) : Option Nat :=
  connection.fields.length?

/-- The boundary of the response or of the last part read, if it states one. -/
def boundary? (connection : Connection) : Option Bytes :=
  connection.fields.boundary?

/-- Skips to the end of the delimiter.  What is skipped is appended to `saved`,
if there is such a thing. -/
def findBoundary (boundary : Bytes) (saved : Option Bytes)
    (connection : Connection) :
    Option Bytes × EStateM.Result Failure Connection Unit :=
  let search := Boundary.search boundary saved connection.reader
  match search.result with
  | .error failure reader =>
      (search.saved, .error failure { connection with reader })
  | .ok () reader => (search.saved, .ok () { connection with reader })

/-- Skips to the content of the next part.  `none` stands for the end of the
body. -/
def nextPart (boundary : Bytes) (connection : Connection) :
    EStateM.Result Failure Connection (Option EntityFields) :=
  match Part.next connection.settings.maxLineLength boundary
      connection.reader with
  | .error failure reader => .error failure { connection with reader }
  | .ok none reader => .ok none { connection with reader }
  | .ok (some fields) reader =>
      .ok (some fields) { connection with reader, fields }

/-- Reads so many bytes of the body. -/
def readExact (count : Nat) (connection : Connection) :
    EStateM.Result Failure Connection Bytes :=
  match connection.reader.readExact count with
  | .error failure reader => .error failure { connection with reader }
  | .ok bytes reader => .ok bytes { connection with reader }

/-- Reads the body up to its end or a failure. -/
def readToEnd (connection : Connection) :
    Bytes × EStateM.Result Failure Connection Unit :=
  match connection.reader.readToEnd with
  | (bytes, .error failure reader) =>
      (bytes, .error failure { connection with reader })
  | (bytes, .ok () reader) => (bytes, .ok () { connection with reader })

/-- The bare stream.  What its reader holds is lost. -/
def intoStream (connection : Connection) : Source × Sink :=
  (connection.reader.source, connection.sink)

end Connection

end StreamingHttp
