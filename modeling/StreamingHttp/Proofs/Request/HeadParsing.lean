import StreamingHttp.Proofs.Header.FoldedFields
import StreamingHttp.Proofs.Text.Utf8RoundTrip
import StreamingHttp.Request.Head

/-!
# The head of a request is read as it is meant

A request is refused if its path, its host or its credentials would end a line or a
word of the head, and a refused request leaves the buffer as it is.  The head of any
other request is a start line, a host field, a field for the credentials if there are
any, and an empty line.  So a parser reads exactly these from it, and stops where the
head stops.

Hosts and credentials may hold any other byte.  Blanks around them are lost on the way,
because the value of a field is read without the blanks at its ends.
-/

namespace StreamingHttp

open Header

namespace Request

variable {request : Request}

/-! ### Requests which are refused -/

/-- The path holds a control byte or a space. -/
def HasBadPath (request : Request) : Prop :=
  ∃ b ∈ Utf8.ofString request.path, b ≤ 0x20 ∨ b = 0x7F

/-- The host is empty or holds a line end. -/
def HasBadHost (request : Request) : Prop :=
  request.host = "" ∨ ∃ b ∈ Utf8.ofString request.host, b = Byte.cr ∨ b = Byte.lf

/-- There are credentials, and they hold a line end. -/
def HasBadAuth (request : Request) : Prop :=
  ∃ auth, request.auth = some auth ∧
    ∃ b ∈ Utf8.ofString auth, b = Byte.cr ∨ b = Byte.lf

theorem holds_append (p : UInt8 → Bool) (first second : String) :
    holds p (first ++ second) = (holds p first || holds p second) := by
  rw [holds, Utf8.ofString_append, List.any_append, holds, holds]

theorem holds_eq_false_iff {p : UInt8 → Bool} {text : String} :
    holds p text = false ↔ ∀ b ∈ Utf8.ofString text, p b = false := by
  simp [holds]

theorem holds_endsPath_iff (request : Request) :
    holds endsPath request.path = true ↔ request.HasBadPath := by
  simp [holds, endsPath, HasBadPath, Byte.space, Byte.delete]

theorem holds_isLineEnd_iff (text : String) :
    holds Byte.isLineEnd text = true ↔
      ∃ b ∈ Utf8.ofString text, b = Byte.cr ∨ b = Byte.lf := by
  simp [holds, Byte.isLineEnd]

theorem host_check_iff (request : Request) :
    (request.host.isEmpty || holds Byte.isLineEnd request.host) = true ↔
      request.HasBadHost := by
  rw [Bool.or_eq_true, String.isEmpty_iff, holds_isLineEnd_iff, HasBadHost]

theorem auth_check_iff (request : Request) :
    request.auth.any (holds Byte.isLineEnd) = true ↔ request.HasBadAuth := by
  simp only [Option.any_eq_true, holds_isLineEnd_iff, HasBadAuth]

/-- The path is checked first, then the host, then the credentials. -/
theorem fault?_eq (request : Request) [Decidable request.HasBadPath]
    [Decidable request.HasBadHost] [Decidable request.HasBadAuth] :
    request.fault? =
      if request.HasBadPath then some .invalidPath
      else if request.HasBadHost then some .invalidHost
      else if request.HasBadAuth then some .invalidHeaderValue
      else none := by
  simp only [fault?, holds_endsPath_iff, host_check_iff, auth_check_iff]

/-- A request which is not refused. -/
theorem fault?_eq_none_iff (request : Request) :
    request.fault? = none ↔
      ¬ request.HasBadPath ∧ ¬ request.HasBadHost ∧ ¬ request.HasBadAuth := by
  classical
  rw [fault?_eq]
  by_cases hpath : request.HasBadPath
  · simp [hpath]
  by_cases hhost : request.HasBadHost
  · simp [hpath, hhost]
  by_cases hauth : request.HasBadAuth <;> simp [hpath, hhost, hauth]

/-! ### The head of any other request -/

/-- The request line without its line end. -/
def startText (request : Request) : String :=
  "GET /" ++ request.path ++ " HTTP/1.1"

/-- No path which is accepted ends the request line. -/
theorem holds_isLineEnd_startText (h : ¬ request.HasBadPath) :
    holds Byte.isLineEnd request.startText = false := by
  have hmethod : holds Byte.isLineEnd "GET /" = false := by decide
  have hversion : holds Byte.isLineEnd " HTTP/1.1" = false := by decide
  have hpath : holds Byte.isLineEnd request.path = false := by
    rw [← Bool.not_eq_true, holds_isLineEnd_iff]
    rintro ⟨b, hb, hend⟩
    refine h ⟨b, hb, .inl ?_⟩
    rcases hend with rfl | rfl <;> decide
  rw [startText, holds_append, holds_append, hmethod, hpath, hversion]
  rfl

theorem holds_isLineEnd_host (h : ¬ request.HasBadHost) :
    holds Byte.isLineEnd request.host = false := by
  rw [← Bool.not_eq_true, holds_isLineEnd_iff]
  exact fun hend => h (.inr hend)

theorem holds_isLineEnd_auth (h : ¬ request.HasBadAuth) {auth : String}
    (hauth : request.auth = some auth) : holds Byte.isLineEnd auth = false := by
  rw [← Bool.not_eq_true, holds_isLineEnd_iff]
  exact fun hend => h ⟨auth, hauth, hend⟩

/-- A start line ends with its version, so nothing is trimmed off it. -/
theorem trimEnd_startText (request : Request) :
    Bytes.trimEnd Byte.isBlank (Utf8.ofString request.startText) =
      Utf8.ofString request.startText := by
  have hversion : Utf8.ofString " HTTP/1.1" = Utf8.ofString " HTTP/1." ++ [0x31] := rfl
  rw [startText, Utf8.ofString_append, hversion, ← List.append_assoc,
    Bytes.trimEnd_append_cons rfl]
  rfl

/-- A blank before a value does not end its line. -/
theorem isLineEnd_of_mem_space_cons {text : String}
    (h : holds Byte.isLineEnd text = false) :
    ∀ b ∈ Byte.space :: Utf8.ofString text, Byte.isLineEnd b = false := by
  rw [List.forall_mem_cons]
  exact ⟨rfl, holds_eq_false_iff.mp h⟩

/-- The host field. -/
def hostLine (request : Request) (h : ¬ request.HasBadHost) : FieldLine where
  name := Utf8.ofString "Host"
  value := Byte.space :: Utf8.ofString request.host
  lineEnd := .crlf
  name_ne_nil := by decide
  name_clean := FieldLine.clean_of_all (by decide)
  value_clean := isLineEnd_of_mem_space_cons (holds_isLineEnd_host h)

/-- The field of credentials without line ends. -/
def authLine (auth : String) (h : holds Byte.isLineEnd auth = false) : FieldLine where
  name := Utf8.ofString "Authorization"
  value := Byte.space :: Utf8.ofString ("Basic " ++ auth)
  lineEnd := .crlf
  name_ne_nil := by decide
  name_clean := FieldLine.clean_of_all (by decide)
  value_clean := by
    have hscheme : holds Byte.isLineEnd "Basic " = false := by decide
    refine isLineEnd_of_mem_space_cons ?_
    rw [holds_append, hscheme, h]
    rfl

/-- Name and value of the field of credentials, as they are read. -/
def authHeader (auth : String) : Bytes × Bytes :=
  (Utf8.ofString "Authorization",
    Bytes.trimEnd Byte.isBlank (Utf8.ofString ("Basic " ++ auth)))

/-- Names and values of the fields of a head, as they are read. -/
def headers (request : Request) : List (Bytes × Bytes) :=
  (Utf8.ofString "Host", Bytes.trim Byte.isBlank (Utf8.ofString request.host)) ::
    (request.auth.map authHeader).toList

theorem header_hostLine (h : ¬ request.HasBadHost) :
    (request.hostLine h).header =
      (Utf8.ofString "Host", Bytes.trim Byte.isBlank (Utf8.ofString request.host)) := by
  rw [FieldLine.header, hostLine, Bytes.trim_cons_of_pos rfl]

theorem header_authLine (auth : String) (h : holds Byte.isLineEnd auth = false) :
    (authLine auth h).header = authHeader auth := by
  have hscheme : Utf8.ofString ("Basic " ++ auth) =
      0x42 :: (Utf8.ofString "asic " ++ Utf8.ofString auth) := by
    rw [Utf8.ofString_append]
    rfl
  show (_, Bytes.trim Byte.isBlank (Byte.space :: Utf8.ofString ("Basic " ++ auth))) = _
  rw [authHeader, Bytes.trim_cons_of_pos rfl, hscheme, Bytes.trim,
    Bytes.trimEnd_cons rfl, List.dropWhile_cons_of_neg (by decide)]
  rfl

theorem ofString_authorizationLine (auth : String)
    (h : holds Byte.isLineEnd auth = false) :
    Utf8.ofString (authorizationLine auth) = (authLine auth h).bytes := by
  have hname : Utf8.ofString "Authorization: Basic " =
      Utf8.ofString "Authorization" ++
        Byte.colon :: Byte.space :: Utf8.ofString "Basic " := rfl
  -- The colon ends the name, and the blank behind it belongs to the value.
  calc Utf8.ofString (authorizationLine auth)
      = Utf8.ofString "Authorization: Basic " ++ Utf8.ofString auth ++
          Utf8.ofString "\r\n" := by
        unfold authorizationLine
        rw [Utf8.ofString_append, Utf8.ofString_append]
    _ = Utf8.ofString "Authorization" ++ Byte.colon :: Byte.space ::
          (Utf8.ofString "Basic " ++ Utf8.ofString auth) ++ Utf8.ofString "\r\n" := by
        rw [hname, List.append_assoc (Utf8.ofString "Authorization")]
        rfl
    _ = (authLine auth h).bytes := by
        rw [← Utf8.ofString_append "Basic " auth]
        rfl

/-- The lines of a head which is written. -/
theorem ofString_headText (request : Request) :
    Utf8.ofString request.headText =
      Utf8.ofString request.startText ++ LineEnd.crlf.bytes ++
        (Utf8.ofString "Host: " ++ Utf8.ofString request.host ++ LineEnd.crlf.bytes ++
          Utf8.ofString ((request.auth.map authorizationLine).getD "")) ++
        LineEnd.crlf.bytes := by
  have hend : Utf8.ofString "\r\n" = LineEnd.crlf.bytes := rfl
  have hstart : Utf8.ofString " HTTP/1.1\r\n" =
      Utf8.ofString " HTTP/1.1" ++ LineEnd.crlf.bytes := rfl
  unfold headText startText
  simp only [Utf8.ofString_append, hend, hstart, List.append_assoc]

/-- The fields of a head which is written. -/
theorem exists_fieldLines (hhost : ¬ request.HasBadHost) (hauth : ¬ request.HasBadAuth) :
    ∃ fields : List FieldLine, fields.map FieldLine.header = request.headers ∧
      Utf8.ofString request.headText =
        Utf8.ofString request.startText ++ LineEnd.crlf.bytes ++
          (fields.map FieldLine.bytes).flatten ++ LineEnd.crlf.bytes := by
  have hhostBytes : (request.hostLine hhost).bytes =
      Utf8.ofString "Host: " ++ Utf8.ofString request.host ++ LineEnd.crlf.bytes := by
    rfl
  rw [ofString_headText, ← hhostBytes]
  cases hsome : request.auth with
  | none =>
      refine ⟨[request.hostLine hhost], ?_, ?_⟩
      · simp [headers, hsome, header_hostLine]
      · simp [Utf8.ofString]
  | some auth =>
      have hclean : holds Byte.isLineEnd auth = false := holds_isLineEnd_auth hauth hsome
      have hauthBytes : Utf8.ofString (authorizationLine auth) =
          (authLine auth hclean).bytes := ofString_authorizationLine auth hclean
      refine ⟨[request.hostLine hhost, authLine auth hclean], ?_, ?_⟩
      · simp [headers, hsome, header_hostLine, header_authLine]
      · simp [hauthBytes]

/-- A head in any chunks, with anything behind it, is read to its end and no
further. -/
theorem ofParser_feedAll_headText (hfault : request.fault? = none) {chunks : List Bytes}
    {rest : Bytes} (hchunks : chunks.flatten = Utf8.ofString request.headText ++ rest) :
    Block.ofParser (feedAll Parser.feed (.new true) chunks).1.flatten
        (feedAll Parser.feed (.new true) chunks).2 =
      { closed := true
        startLine := Utf8.ofString request.startText
        fields := request.headers
        faults := []
        rest := rest } := by
  obtain ⟨hpath, hhost, hauth⟩ := (fault?_eq_none_iff request).mp hfault
  obtain ⟨fields, hheaders, htext⟩ := exists_fieldLines hhost hauth
  -- The chunks may be fed at once.
  have hfed := Parser.handsBack.feed_flatten (Parser.new true) chunks
  have hstart : Utf8.ofString request.startText ≠ [] := by
    rw [startText, Utf8.ofString_append, Utf8.ofString_append]
    simp [Utf8.ofString]
  have hclean := holds_eq_false_iff.mp (holds_isLineEnd_startText hpath)
  have hblock := ofParser_feed_startLine hstart hclean .crlf fields .crlf rest
  rw [← htext, ← hchunks, hfed, trimEnd_startText, hheaders] at hblock
  exact hblock

/-- A request is refused for the first of its faults, and then the buffer stays as it
is.  The head of any other request is appended to the buffer, and a new parser which is
fed it, in any chunks and with anything behind it, is done where it ends, lists no
fault, and has read the request line, the host, and the credentials if there are any. -/
theorem appendHead_then_parse (buffer : Bytes) (request : Request) :
    ((request.appendHead buffer).1 = .error .invalidPath ↔ request.HasBadPath) ∧
      ((request.appendHead buffer).1 = .error .invalidHost ↔
        ¬ request.HasBadPath ∧ request.HasBadHost) ∧
      ((request.appendHead buffer).1 = .error .invalidHeaderValue ↔
        ¬ request.HasBadPath ∧ ¬ request.HasBadHost ∧ request.HasBadAuth) ∧
      (∀ fault, (request.appendHead buffer).1 = .error fault →
        (request.appendHead buffer).2 = buffer) ∧
      (¬ request.HasBadPath → ¬ request.HasBadHost → ¬ request.HasBadAuth →
        ∃ head, request.appendHead buffer = (.ok (), buffer ++ head) ∧
          ∀ (rest : Bytes) (chunks : List Bytes), chunks.flatten = head ++ rest →
            Block.ofParser (feedAll Parser.feed (.new true) chunks).1.flatten
                (feedAll Parser.feed (.new true) chunks).2 =
              { closed := true
                startLine := Utf8.ofString ("GET /" ++ request.path ++ " HTTP/1.1")
                fields :=
                  (Utf8.ofString "Host",
                    Bytes.trim Byte.isBlank (Utf8.ofString request.host)) ::
                  (request.auth.map fun auth =>
                    (Utf8.ofString "Authorization",
                      Bytes.trimEnd Byte.isBlank
                        (Utf8.ofString ("Basic " ++ auth)))).toList
                faults := []
                rest := rest }) := by
  classical
  have hfault := fault?_eq request
  by_cases hpath : request.HasBadPath
  · rw [if_pos hpath] at hfault
    simp [appendHead, head, hfault, hpath]
  rw [if_neg hpath] at hfault
  by_cases hhost : request.HasBadHost
  · rw [if_pos hhost] at hfault
    simp [appendHead, head, hfault, hpath, hhost]
  rw [if_neg hhost] at hfault
  by_cases hauth : request.HasBadAuth
  · rw [if_pos hauth] at hfault
    simp [appendHead, head, hfault, hpath, hhost, hauth]
  · rw [if_neg hauth] at hfault
    simp only [appendHead, head, hfault, hpath, hhost, hauth]
    refine ⟨by simp, by simp, by simp, by simp, fun _ _ _ => ?_⟩
    exact ⟨_, rfl, fun rest chunks hchunks => ofParser_feedAll_headText hfault hchunks⟩

/-- A host which is only a blank is read as an empty one, and a blank behind the
credentials is lost. -/
theorem appendHead_then_parse_blanks :
    ¬ Request.HasBadPath ⟨" ", 80, some "QTpC ", "x:y"⟩ ∧
      ¬ Request.HasBadHost ⟨" ", 80, some "QTpC ", "x:y"⟩ ∧
      ¬ Request.HasBadAuth ⟨" ", 80, some "QTpC ", "x:y"⟩ ∧
      ∃ head, Request.appendHead [0x61] ⟨" ", 80, some "QTpC ", "x:y"⟩ =
          (.ok (), [0x61] ++ head) ∧
        Block.ofParser
            (feedAll Parser.feed (.new true) [head.take 7, head.drop 7 ++ [0x7A]]).1.flatten
            (feedAll Parser.feed (.new true) [head.take 7, head.drop 7 ++ [0x7A]]).2 =
          { closed := true
            startLine := Utf8.ofString "GET /x:y HTTP/1.1"
            fields := [(Utf8.ofString "Host", []),
              (Utf8.ofString "Authorization", Utf8.ofString "Basic QTpC")]
            faults := []
            rest := [0x7A] } := by
  have hpath : ¬ Request.HasBadPath ⟨" ", 80, some "QTpC ", "x:y"⟩ := by
    rw [← holds_endsPath_iff]
    decide
  have hhost : ¬ Request.HasBadHost ⟨" ", 80, some "QTpC ", "x:y"⟩ := by
    rw [← host_check_iff]
    decide
  have hauth : ¬ Request.HasBadAuth ⟨" ", 80, some "QTpC ", "x:y"⟩ := by
    rw [← auth_check_iff]
    decide
  obtain ⟨-, -, -, -, hwritten⟩ :=
    appendHead_then_parse [0x61] ⟨" ", 80, some "QTpC ", "x:y"⟩
  obtain ⟨head, happend, hread⟩ := hwritten hpath hhost hauth
  refine ⟨hpath, hhost, hauth, head, happend, ?_⟩
  rw [hread [0x7A] [head.take 7, head.drop 7 ++ [0x7A]] (by simp [← List.append_assoc])]
  rfl

end Request

end StreamingHttp
