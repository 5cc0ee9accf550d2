import StreamingHttp.Proofs.Base64
import StreamingHttp.Proofs.Location.Spelling
import StreamingHttp.Proofs.Request.HeadParsing

/-!
# Which locations can be sent

The texts of a location are sent in three ways.  Its path and its host stand in the head as
they are.  User and password are sent in base64, which holds no line end, and the parameters
percent-encoded, which leaves neither control bytes nor spaces.

So the path and the host of a location decide alone whether a request for it is refused.
User, password and parameters may hold any characters, and the request may add any
parameters.  The head has a line for the credentials if there is a user, and otherwise its
lines are the same ones: no text of the location starts a line.
-/

namespace StreamingHttp

namespace Location

/-- The path holds a control byte or a space. -/
def HasBadPath (location : Location) : Prop :=
  ∃ b ∈ Utf8.ofString location.path, b ≤ 0x20 ∨ b = 0x7F

/-- The host holds a line end. -/
def HasBadHost (location : Location) : Prop :=
  ∃ b ∈ Utf8.ofString location.host, b = Byte.cr ∨ b = Byte.lf

end Location

namespace Request

open Location

/-! ### Queries which are written -/

theorem endsPath_of_isEncoded {b : UInt8} (h : Percent.isEncoded b = true) :
    endsPath b = false := by
  have hall : ∀ value < 256, Percent.isEncoded (UInt8.ofNat value) = true →
      endsPath (UInt8.ofNat value) = false := by decide +kernel
  exact Byte.of_forall_lt
    (p := fun b => Percent.isEncoded b = true → endsPath b = false) hall b.toNat_lt h

theorem holds_endsPath_encodeText (style : Percent.SpaceStyle) (data : Bytes) :
    holds endsPath (Percent.encodeText style data) = false := by
  rw [holds_eq_false_iff, Percent.ofString_encodeText]
  exact fun b hb => endsPath_of_isEncoded (Percent.isEncoded_of_mem_encode b hb)

theorem holds_endsPath_paramText (param : String × String) :
    holds endsPath (paramText param) = false := by
  have hequals : holds endsPath "=" = false := by decide
  unfold paramText
  dsimp only
  split
  · exact holds_endsPath_encodeText _ _
  · rw [holds_append, holds_append, holds_endsPath_encodeText, hequals,
      holds_endsPath_encodeText]
    rfl

theorem holds_endsPath_moreParamsText (params : List (String × String)) :
    holds endsPath (moreParamsText params) = false := by
  have hdivider : holds endsPath "&" = false := by decide
  induction params with
  | nil => rfl
  | cons param params ih =>
      have htext : moreParamsText (param :: params) =
          "&" ++ paramText param ++ moreParamsText params := rfl
      rw [htext, holds_append, holds_append, hdivider, holds_endsPath_paramText, ih]
      rfl

/-- No query which is written ends the path. -/
theorem holds_endsPath_queryText (params : List (String × String)) :
    holds endsPath (queryText params) = false := by
  have hmark : holds endsPath "?" = false := by decide
  cases params with
  | nil => rfl
  | cons param params =>
      rw [queryText, holds_append, holds_append, hmark, holds_endsPath_paramText,
        holds_endsPath_moreParamsText]
      rfl

/-! ### What decides -/

/-- A query does not make a path a bad one. -/
theorem hasBadPath_toHost_iff {location : Location} {params : List (String × String)} :
    (toHost location (location.path ++ queryText params)).HasBadPath ↔
      location.HasBadPath := by
  have hpath : holds endsPath (location.path ++ queryText params) =
      holds endsPath location.path := by
    rw [holds_append, holds_endsPath_queryText, Bool.or_false]
  rw [← holds_endsPath_iff, toHost, hpath]
  exact holds_endsPath_iff (toHost location location.path)

theorem hasBadHost_toHost_iff {url : String} {location : Location}
    (h : parse url = .ok location) {path : String} :
    (toHost location path).HasBadHost ↔ location.HasBadHost :=
  or_iff_right (Spelling.host_ne_empty_of_parse_eq_ok h)

/-- Base64 stays on its line. -/
theorem holds_isLineEnd_basicCredentials (user password : String) :
    holds Byte.isLineEnd (Base64.basicCredentials user password) = false := by
  rw [holds_eq_false_iff]
  intro b hb
  have hspace := Base64.isSpace_of_mem_encode b hb
  simp only [Byte.isSpace, Bool.or_eq_false_iff] at hspace
  exact hspace.1.2

/-- No user and no password make credentials bad. -/
theorem not_hasBadAuth_toHost (location : Location) (path : String) :
    ¬ (toHost location path).HasBadAuth := by
  rintro ⟨auth, hauth, hend⟩
  rw [toHost, credentials?] at hauth
  split at hauth
  · cases hauth
  · cases hauth
    rw [← holds_isLineEnd_iff, holds_isLineEnd_basicCredentials] at hend
    cases hend

/-! ### The lines of a head -/

/-- The lines of a head without their line ends. -/
def lines (request : Request) : List String :=
  request.startText :: ("Host: " ++ request.host) ::
    ((request.auth.map ("Authorization: Basic " ++ ·)).toList ++ [""])

/-- A head is written line by line. -/
theorem ofString_headText_eq_flatMap (request : Request) :
    Utf8.ofString request.headText =
      request.lines.flatMap fun line => Utf8.ofString line ++ [Byte.cr, Byte.lf] := by
  have hend : Utf8.ofString "\r\n" = [Byte.cr, Byte.lf] := rfl
  have hempty : Utf8.ofString "" = [] := rfl
  rw [ofString_headText, lines]
  cases request.auth with
  | none => simp [LineEnd.bytes, hempty]
  | some auth =>
      unfold authorizationLine
      simp [LineEnd.bytes, hend, hempty]

/-- No text of a request which is accepted starts a line. -/
theorem holds_isLineEnd_of_mem_lines {request : Request} (h : request.fault? = none) :
    ∀ line ∈ request.lines, holds Byte.isLineEnd line = false := by
  obtain ⟨hpath, hhost, hauth⟩ := (fault?_eq_none_iff request).mp h
  intro line hline
  rw [lines, List.mem_cons, List.mem_cons, List.mem_append, Option.mem_toList] at hline
  rcases hline with rfl | rfl | hline | hline
  · exact holds_isLineEnd_startText hpath
  · have hname : holds Byte.isLineEnd "Host: " = false := by decide
    rw [holds_append, hname, holds_isLineEnd_host hhost]
    rfl
  · have hname : holds Byte.isLineEnd "Authorization: Basic " = false := by decide
    obtain ⟨auth, hsome, rfl⟩ := Option.map_eq_some_iff.mp hline
    rw [holds_append, hname, holds_isLineEnd_auth hauth hsome]
    rfl
  · rw [List.mem_singleton] at hline
    subst hline
    rfl

theorem length_lines_toHost (location : Location) (path : String) :
    (toHost location path).lines.length = if location.user = "" then 3 else 4 := by
  rw [lines, toHost, credentials?]
  by_cases huser : location.user = "" <;> simp [huser]

/-- A request for a location is refused because of its path or its host only, and otherwise
its head is written.  Then the head has its three lines, and one more if there is a user. -/
theorem sendable_by_path_and_host {url : String} {location : Location}
    (h : parse url = .ok location) (extra : List (String × String)) (buffer : Bytes)
    {request : Request}
    (hrequest : request = ofLocation location ∨ request = withParams location extra) :
    ((request.appendHead buffer).1 = .error .invalidPath ↔ location.HasBadPath) ∧
      ((request.appendHead buffer).1 = .error .invalidHost ↔
        ¬ location.HasBadPath ∧ location.HasBadHost) ∧
      (request.appendHead buffer).1 ≠ .error .invalidHeaderValue ∧
      (¬ location.HasBadPath ∧ ¬ location.HasBadHost →
        request.appendHead buffer =
            (.ok (), buffer ++
              request.lines.flatMap fun line => Utf8.ofString line ++ [Byte.cr, Byte.lf]) ∧
          (∀ line ∈ request.lines,
            ∀ b ∈ Utf8.ofString line, b ≠ Byte.cr ∧ b ≠ Byte.lf) ∧
          request.lines.length = if location.user = "" then 3 else 4) := by
  classical
  obtain ⟨params, rfl⟩ :
      ∃ params, request = toHost location (location.path ++ queryText params) := by
    rcases hrequest with rfl | rfl
    · exact ⟨_, rfl⟩
    · exact ⟨_, rfl⟩
  have hfault := fault?_eq (toHost location (location.path ++ queryText params))
  rw [if_neg (not_hasBadAuth_toHost _ _)] at hfault
  simp only [hasBadPath_toHost_iff, hasBadHost_toHost_iff h] at hfault
  by_cases hpath : location.HasBadPath
  · rw [if_pos hpath] at hfault
    simp [appendHead, head, hfault, hpath]
  rw [if_neg hpath] at hfault
  by_cases hhost : location.HasBadHost
  · rw [if_pos hhost] at hfault
    simp [appendHead, head, hfault, hpath, hhost]
  rw [if_neg hhost] at hfault
  simp only [appendHead, head, hfault, hpath, hhost]
  refine ⟨by simp, by simp, by simp, fun _ => ⟨?_, fun line hline b hb => ?_, ?_⟩⟩
  · rw [ofString_headText_eq_flatMap]
  · have hclean := holds_eq_false_iff.mp (holds_isLineEnd_of_mem_lines hfault line hline) b hb
    simpa [Byte.isLineEnd] using hclean
  · exact length_lines_toHost location _

/-- User, password, parameters and a further parameter hold line ends. -/
theorem sendable_by_path_and_host_line_ends :
    let url := "http://u%0D%0A:%0Ap@h/a?%0D=%0A&k"
    let location : Location :=
      { url := url
        user := "u\r\n"
        password := "\np"
        host := "h"
        port := 80
        path := "a"
        params := [("\r", "\n"), ("k", "")]
        fragment := "" }
    let request := withParams location [("\r\nX", "\n ")]
    parse url = .ok location ∧ ¬ location.HasBadPath ∧ ¬ location.HasBadHost ∧
      request.appendHead [0x61] =
        (.ok (), [0x61] ++
          request.lines.flatMap fun line => Utf8.ofString line ++ [Byte.cr, Byte.lf]) ∧
      (∀ line ∈ request.lines, ∀ b ∈ Utf8.ofString line, b ≠ Byte.cr ∧ b ≠ Byte.lf) ∧
      request.lines =
        ["GET /a?%0D=%0A&k&%0D%0AX=%0A%20 HTTP/1.1", "Host: h",
          "Authorization: Basic dQ0KOgpw", ""] := by
  have hread : parse "http://u%0D%0A:%0Ap@h/a?%0D=%0A&k" = .ok
      { url := "http://u%0D%0A:%0Ap@h/a?%0D=%0A&k"
        user := "u\r\n"
        password := "\np"
        host := "h"
        port := 80
        path := "a"
        params := [("\r", "\n"), ("k", "")]
        fragment := "" } := by decide +kernel
  intro url location request
  have hpath : ¬ location.HasBadPath := by
    show ¬ (toHost location location.path).HasBadPath
    rw [← holds_endsPath_iff]
    decide
  have hhost : ¬ location.HasBadHost := by
    rw [Location.HasBadHost, ← holds_isLineEnd_iff]
    decide
  obtain ⟨-, -, -, hsent⟩ :=
    sendable_by_path_and_host hread [("\r\nX", "\n ")] [0x61] (.inr rfl)
  obtain ⟨hhead, hlines, -⟩ := hsent ⟨hpath, hhost⟩
  exact ⟨hread, hpath, hhost, hhead, hlines, by decide +kernel⟩

end Request

end StreamingHttp
