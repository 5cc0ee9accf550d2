import StreamingHttp.Duration
import StreamingHttp.Transport.Line

/-!
# Settings of a connection

Three time limits and the number of bytes which are read as one line of a
header block.  Reading and writing may also go without a limit.
-/

namespace StreamingHttp

/-- Settings of a connection. -/
structure Settings where
  connectTimeout : Duration := .ofSeconds 5
  readTimeout : Option Duration := some (.ofSeconds 5)
  writeTimeout : Option Duration := some (.ofSeconds 5)
  maxLineLength : Nat := Transport.defaultMaxLine
  deriving DecidableEq, Repr

namespace Settings

/-- A time limit which may be absent, as it is shown. -/
def limitText : Option Duration → String
  | none => "None"
  | some limit => "Some(" ++ limit.text ++ ")"

/-- Settings as they are shown. -/
def describe (settings : Settings) : String :=
  "Config \x7b connect_timeout: " ++ settings.connectTimeout.text
    ++ ", read_timeout: " ++ limitText settings.readTimeout
    ++ ", write_timeout: " ++ limitText settings.writeTimeout
    ++ ", max_line_length: " ++ toString settings.maxLineLength
    ++ " \x7d"

end Settings

end StreamingHttp
