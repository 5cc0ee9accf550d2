import StreamingHttp.Percent
import StreamingHttp.Text.Quoted

/-!
# Locations

A location is an `http` URL taken apart.  User, password and the parameters of
the query are decoded; the path stays percent-encoded, because it is sent as it
stands.  The module also lists what can be wrong with a URL.
-/

namespace StreamingHttp

/-- An `http` URL taken apart. -/
structure Location where
  /-- The URL itself. -/
  url : String
  /-- The decoded user; empty if the URL names none. -/
  user : String
  /-- The decoded password; empty if the URL has none. -/
  password : String
  /-- The host, never empty. -/
  host : String
  /-- The port, 80 unless the URL names one. -/
  port : UInt16
  /-- The encoded path without its first slash. -/
  path : String
  /-- The decoded parameters of the query in the order of the URL, duplicates
  included. -/
  params : List (String × String)
  /-- The fragment, as it stands. -/
  fragment : String
  deriving DecidableEq, Repr

namespace Location

/-- What is wrong with a URL.  `raw` is the part of the URL which is at fault,
undecoded. -/
inductive Fault where
  /-- The scheme is not `http`. -/
  | unsupportedScheme
  /-- No two slashes follow the scheme. -/
  | expectedSlashes
  /-- There is no host. -/
  | emptyHost
  /-- The port is no number below 65536. -/
  | badPort (raw : String)
  /-- The user cannot be decoded. -/
  | user (raw : String) (cause : Percent.Fault)
  /-- The password cannot be decoded. -/
  | password (raw : String) (cause : Percent.Fault)
  /-- The name of a parameter cannot be decoded. -/
  | parameter (raw : String) (cause : Percent.Fault)
  /-- The value of a parameter cannot be decoded. -/
  | value (raw : String) (cause : Percent.Fault)
  deriving DecidableEq, Repr

/-- The wording for a part which cannot be decoded. -/
def undecodable (part raw : String) (cause : Percent.Fault) : String :=
  s!"could not unescape {part} {Text.quoted raw}: {cause.message}"

/-- The wording of a fault. -/
def Fault.message : Fault → String
  | .unsupportedScheme => "only supports http URLs"
  | .expectedSlashes => "expected http://..."
  | .emptyHost => "host is empty"
  | .badPort raw => s!"port {Text.quoted raw} is not an integer"
  | .user raw cause => undecodable "user" raw cause
  | .password raw cause => undecodable "password" raw cause
  | .parameter raw cause => undecodable "parameter" raw cause
  | .value raw cause => undecodable "value" raw cause

end Location

end StreamingHttp
