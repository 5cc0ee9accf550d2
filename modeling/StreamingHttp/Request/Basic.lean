import StreamingHttp.Base64
import StreamingHttp.Location.Basic

/-!
# Requests

A request is what a client sends for a location: the host, the credentials if
the location names a user, and path and query.  The query is written anew from
decoded parameters, so it is encoded the same way whatever the URL looked like.

There are four ways to ask for something at a location:

* `ofLocation`: its own path and parameters, duplicates included;
* `withParams`: its own path, its parameters and further ones, of each name the
  first only;
* `withPath`: another path on the same host, and no parameters;
* `withPathParams`: another path with parameters of its own, duplicates
  included.
-/

namespace StreamingHttp

/-- What a client sends for a location. -/
structure Request where
  /-- The host, as the head names it. -/
  host : String
  /-- The port to connect to. -/
  port : UInt16
  /-- Credentials of the Basic scheme. -/
  auth : Option String
  /-- The encoded path without its first slash, and the query. -/
  path : String
  deriving DecidableEq, Repr

namespace Request

/-- One parameter as it is written.  An empty value is left out, and the equals
sign with it. -/
def paramText (param : String × String) : String :=
  let name := Percent.encodeText .escape (Utf8.ofString param.1)
  if param.2.isEmpty then name
  else name ++ "=" ++ Percent.encodeText .escape (Utf8.ofString param.2)

/-- The parameters after the first. -/
def moreParamsText (params : List (String × String)) : String :=
  params.foldr (fun param text => "&" ++ paramText param ++ text) ""

/-- A query with its question mark.  Without parameters there is neither. -/
def queryText : List (String × String) → String
  | [] => ""
  | param :: params => "?" ++ paramText param ++ moreParamsText params

/-- Keeps the first parameter of each name. -/
def firstOfEachName : List (String × String) → List (String × String)
  | [] => []
  | param :: params =>
      param :: (firstOfEachName params).filter (·.1 != param.1)

/-- The credentials of a location which names a user. -/
def credentials? (location : Location) : Option String :=
  if location.user.isEmpty then none
  else some (Base64.basicCredentials location.user location.password)

/-- A request to the host of a location. -/
def toHost (location : Location) (path : String) : Request where
  host := location.host
  port := location.port
  auth := credentials? location
  path := path

/-- A path without its first slash, if it has one. -/
def relativePath (path : String) : String :=
  match path.toList with
  | '/' :: rest => String.ofList rest
  | _ => path

/-- The request for a location as it stands. -/
def ofLocation (location : Location) : Request :=
  toHost location (location.path ++ queryText location.params)

/-- The request for a location with further parameters. -/
def withParams (location : Location) (extra : List (String × String)) :
    Request :=
  toHost location
    (location.path ++ queryText (firstOfEachName (location.params ++ extra)))

/-- The request for another path, encoded already and perhaps with a query, on
the host of a location. -/
def withPath (location : Location) (path : String) : Request :=
  toHost location (relativePath path)

/-- The request for another path with parameters on the host of a location. -/
def withPathParams (location : Location) (path : String)
    (params : List (String × String)) : Request :=
  toHost location (relativePath path ++ queryText params)

end Request

end StreamingHttp
