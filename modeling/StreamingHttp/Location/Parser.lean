import StreamingHttp.Decimal
import StreamingHttp.Delimited
import StreamingHttp.Location.Basic

/-!
# Reading a location

A URL is taken apart in this order, each time at one delimiter:

* the scheme ends at the first `:` and two slashes follow it;
* the authority ends at the first `/` after them;
* user information ends at the first `@` of the authority, and inside it the
  user ends at the first `:`;
* the port starts after the last `:` of the rest of the authority;
* the fragment starts after the first `#` of what follows the authority, and
  the query after the first `?` before it;
* the query is a list of parameters divided by `&`, each with a value after its
  first `=`.

A part whose delimiter is absent is empty.  Only then are the parts checked:
user, password, host, port, and the parameters from left to right, the name of
each before its value.  The first part at fault is the one reported.
-/

namespace StreamingHttp

namespace Location

/-- The parts of a URL after scheme and slashes, undecoded. -/
structure Parts where
  user : List Char
  password : List Char
  host : List Char
  port : List Char
  path : List Char
  query : List Char
  fragment : List Char
  deriving DecidableEq, Repr

/-- Removes the scheme and the two slashes after it. -/
def afterSlashes (url : List Char) : Except Fault (List Char) :=
  match Delimited.cut ':' url with
  | (scheme, rest) =>
      if scheme.map Char.toLower = "http".toList then
        match rest with
        | some ('/' :: '/' :: rest) => .ok rest
        | _ => .error .expectedSlashes
      else
        .error .unsupportedScheme

/-- User information and the rest of an authority. -/
def splitAuthority (authority : List Char) : List Char × List Char :=
  match Delimited.cut '@' authority with
  | (userInfo, some hostPort) => (userInfo, hostPort)
  | (hostPort, none) => ([], hostPort)

/-- Takes apart what follows the two slashes. -/
def Parts.split (text : List Char) : Parts :=
  let (authority, afterAuthority) := Delimited.cut '/' text
  let (userInfo, hostPort) := splitAuthority authority
  let (user, password) := Delimited.cut ':' userInfo
  let (host, port) := Delimited.cutLast ':' hostPort
  let (resource, fragment) := Delimited.cut '#' (afterAuthority.getD [])
  let (path, query) := Delimited.cut '?' resource
  { user
    password := password.getD []
    host
    port := port.getD []
    path
    query := query.getD []
    fragment := fragment.getD [] }

/-- Decodes one part; `fault` says which. -/
def decodePart (fault : String → Percent.Fault → Fault) (raw : List Char) :
    Except Fault String :=
  (Percent.decodeText raw).mapError (fault (String.ofList raw))

/-- A non-empty host. -/
def checkHost (host : List Char) : Except Fault String :=
  if host.isEmpty then .error .emptyHost else .ok (String.ofList host)

/-- The value of a port: decimal digits, after one plus sign or none. -/
def portValue? (text : List Char) : Option UInt16 :=
  let digits := match text with
    | '+' :: digits => digits
    | digits => digits
  (Decimal.read? 65536 (Utf8.encode digits)).map UInt16.ofNat

/-- The port which a URL names, 80 if it names none. -/
def readPort (raw : List Char) : Except Fault UInt16 :=
  if raw.isEmpty then .ok 80
  else
    match portValue? raw with
    | some port => .ok port
    | none => .error (.badPort (String.ofList raw))

/-- The parameters of a query, undecoded.  Empty pieces are no parameters. -/
def rawParams (query : List Char) : List (List Char) :=
  (query.splitOn '&').filter (!·.isEmpty)

/-- Decodes the name and the value of one parameter. -/
def decodeParam (raw : List Char) : Except Fault (String × String) := do
  let (rawName, rawValue) := Delimited.cut '=' raw
  let name ← decodePart .parameter rawName
  let value ← decodePart .value (rawValue.getD [])
  return (name, value)

/-- Decodes and checks the parts of a URL. -/
def ofParts (url : String) (parts : Parts) : Except Fault Location := do
  let user ← decodePart .user parts.user
  let password ← decodePart .password parts.password
  let host ← checkHost parts.host
  let port ← readPort parts.port
  let params ← (rawParams parts.query).mapM decodeParam
  return {
    url, user, password, host, port
    path := String.ofList parts.path
    params
    fragment := String.ofList parts.fragment }

/-- Reads a URL. -/
def parse (url : String) : Except Fault Location := do
  let text ← afterSlashes url.toList
  ofParts url (Parts.split text)

end Location

end StreamingHttp
