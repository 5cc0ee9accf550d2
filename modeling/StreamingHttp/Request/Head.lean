import StreamingHttp.Request.Basic

/-!
# The head of a request

The bytes which a request is sent as: the request line, the host, the
credentials if there are any, and an empty line.  A request whose texts would
break one of these lines is refused, and then nothing is written:

* a path may hold neither control bytes nor spaces;
* a host is not empty and holds no line end;
* credentials hold no line end.

The first of these rules which is broken is the one reported.
-/

namespace StreamingHttp

namespace Request

/-- Why a request cannot be sent. -/
inductive Fault where
  /-- The host is empty or holds a line end. -/
  | invalidHost
  /-- The credentials hold a line end. -/
  | invalidHeaderValue
  /-- The path holds a control byte or a space. -/
  | invalidPath
  deriving DecidableEq, Repr

/-- The wording of a fault. -/
def Fault.message : Fault → String
  | .invalidHost => "Host contains invalid characters"
  | .invalidHeaderValue => "Header value contains invalid characters"
  | .invalidPath => "Path contains invalid characters"

/-- Control bytes and the space: they end a path. -/
def endsPath (b : UInt8) : Bool :=
  b ≤ Byte.space || b == Byte.delete

/-- Whether a text, as UTF-8, holds a byte of a class. -/
def holds (p : UInt8 → Bool) (text : String) : Bool :=
  (Utf8.ofString text).any p

/-- The first rule which a request breaks. -/
def fault? (request : Request) : Option Fault :=
  if holds endsPath request.path then some .invalidPath
  else if request.host.isEmpty || holds Byte.isLineEnd request.host then
    some .invalidHost
  else if request.auth.any (holds Byte.isLineEnd) then some .invalidHeaderValue
  else none

/-- The line which carries credentials. -/
def authorizationLine (auth : String) : String :=
  "Authorization: Basic " ++ auth ++ "\r\n"

/-- The head of a request as text. -/
def headText (request : Request) : String :=
  "GET /" ++ request.path ++ " HTTP/1.1\r\n"
    ++ "Host: " ++ request.host ++ "\r\n"
    ++ (request.auth.map authorizationLine).getD ""
    ++ "\r\n"

/-- The head of a request which breaks no rule. -/
def head (request : Request) : Except Fault Bytes :=
  match request.fault? with
  | some fault => .error fault
  | none => .ok (Utf8.ofString request.headText)

/-- Appends the head of a request to a buffer, which stays as it is if the
request breaks a rule. -/
def appendHead (buffer : Bytes) (request : Request) :
    Except Fault Unit × Bytes :=
  match request.head with
  | .error fault => (.error fault, buffer)
  | .ok bytes => (.ok (), buffer ++ bytes)

end Request

end StreamingHttp
