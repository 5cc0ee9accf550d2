import StreamingHttp.Proofs.Location.Spelling
import StreamingHttp.Proofs.Location.WrittenQuery

/-!
# URLs which name everything

A written URL names user, password, host, port, path, parameters and fragment.  User,
password and parameters are percent-encoded, in either style of spaces; the other parts
stand as they are.  Reading it gives these parts back, whatever user, password,
parameters and fragment are.
-/

namespace StreamingHttp

namespace Location

open Delimited

/-- The parts of a URL which is written with all of them. -/
structure WrittenUrl where
  style : Percent.SpaceStyle
  user : String
  password : String
  host : String
  port : UInt16
  path : String
  params : List (String × String)
  fragment : String
  user_ne_empty : user ≠ ""
  host_ne_empty : host ≠ ""
  host_delimiters : '/' ∉ host.toList ∧ '@' ∉ host.toList ∧ ':' ∉ host.toList
  host_line : '\r' ∉ host.toList ∧ '\n' ∉ host.toList
  /-- No blank starts the host. -/
  host_head : ∀ c ∈ host.toList.head?, c ≠ ' ' ∧ c ≠ '\t'
  /-- No blank ends the host. -/
  host_last : ∀ c ∈ host.toList.getLast?, c ≠ ' ' ∧ c ≠ '\t'
  path_delimiters : '?' ∉ path.toList ∧ '#' ∉ path.toList
  path_bytes : ∀ b ∈ Utf8.ofString path, 0x20 < b ∧ b ≠ 0x7F
  params_ne_empty : ("", "") ∉ params

namespace WrittenUrl

/-- A decoded part as it is written. -/
def encoded (written : WrittenUrl) (text : String) : String :=
  Percent.encodeText written.style (Utf8.ofString text)

/-- A parameter: name, equals sign and value. -/
def paramText (written : WrittenUrl) (param : String × String) : String :=
  written.encoded param.1 ++ "=" ++ written.encoded param.2

/-- The URL itself. -/
def text (written : WrittenUrl) : String :=
  "http://" ++ written.encoded written.user ++ ":" ++ written.encoded written.password
    ++ "@" ++ written.host ++ ":" ++ toString written.port.toNat
    ++ "/" ++ written.path
    ++ "?" ++ "&".intercalate (written.params.map written.paramText)
    ++ "#" ++ written.fragment

/-- The parts of the URL as they are read. -/
def location (written : WrittenUrl) : Location where
  url := written.text
  user := written.user
  password := written.password
  host := written.host
  port := written.port
  path := written.path
  params := written.params
  fragment := written.fragment

variable (written : WrittenUrl)

/-! ### The characters of the URL -/

/-- The user and the password. -/
def userInfoChars : List Char :=
  (written.encoded written.user).toList ++ ':' :: (written.encoded written.password).toList

/-- The host and the port. -/
def hostPortChars : List Char :=
  written.host.toList ++ ':' :: (toString written.port.toNat).toList

/-- The parameters. -/
def queryChars : List Char :=
  ['&'].intercalate (written.params.map fun param => (written.paramText param).toList)

theorem toList_text :
    written.text.toList =
      "http://".toList ++ (written.userInfoChars ++ '@' :: written.hostPortChars ++
        '/' :: (written.path.toList ++ suffix '?' (some written.queryChars) ++
          suffix '#' (some written.fragment.toList))) := by
  have hquery : ("&".intercalate (written.params.map written.paramText)).toList =
      written.queryChars := by
    rw [String.toList_intercalate, List.map_map]
    rfl
  have hcolon : ":".toList = [':'] := rfl
  have hat : "@".toList = ['@'] := rfl
  have hslash : "/".toList = ['/'] := rfl
  have hquestion : "?".toList = ['?'] := rfl
  have hmark : "#".toList = ['#'] := rfl
  unfold text
  simp only [String.toList_append, hquery, hcolon, hat, hslash, hquestion, hmark,
    userInfoChars, hostPortChars, suffix, List.append_assoc, List.cons_append,
    List.nil_append]

theorem notMem_encoded {b : UInt8} (hb : b < 0x80) (h : Percent.isEncoded b = false)
    (text : String) : Char.ofNat b.toNat ∉ (written.encoded text).toList :=
  Percent.notMem_encodeText hb h written.style (Utf8.ofString text)

/-- No colon, at sign or slash is in a part of the user information. -/
theorem delimiters_notMem_encoded (text : String) :
    ':' ∉ (written.encoded text).toList ∧ '@' ∉ (written.encoded text).toList ∧
      '/' ∉ (written.encoded text).toList :=
  ⟨written.notMem_encoded (b := 0x3A) (by decide) rfl text,
    written.notMem_encoded (b := 0x40) (by decide) rfl text,
    written.notMem_encoded (b := 0x2F) (by decide) rfl text⟩

theorem delimiters_notMem_userInfoChars :
    '@' ∉ written.userInfoChars ∧ '/' ∉ written.userInfoChars := by
  have huser := written.delimiters_notMem_encoded written.user
  have hpassword := written.delimiters_notMem_encoded written.password
  simp [userInfoChars, huser.2, hpassword.2]

theorem readsAs_paramText (param : String × String) :
    ReadsAs (written.paramText param).toList param := by
  have hpair := readsAs_pair written.style param
  rw [paramText, String.toList_append, String.toList_append]
  simpa [encoded] using hpair

theorem mark_notMem_queryChars : '#' ∉ written.queryChars :=
  mark_notMem_query fun param _ => written.readsAs_paramText param

/-! ### Reading the URL -/

/-- The pieces of the URL. -/
def spelling : Spelling where
  scheme := "http".toList
  userInfo := some written.userInfoChars
  host := written.host.toList
  port := some (toString written.port.toNat).toList
  resource := some ⟨written.path.toList, some written.queryChars, some written.fragment.toList⟩

theorem text_spelling : written.spelling.text = written.text.toList := by
  rw [toList_text]
  rfl

theorem wellDivided_spelling : written.spelling.WellDivided where
  scheme := map_toLower_eq_iff.mp rfl
  userInfo := by
    intro text hsome
    rw [← Option.some.inj hsome]
    exact written.delimiters_notMem_userInfoChars.symm
  host := written.host_delimiters.1
  port := by
    intro text hsome
    rw [← Option.some.inj hsome]
    exact ⟨notMem_toString rfl _, notMem_toString rfl _⟩
  host_of_no_userInfo := fun hnone => nomatch hnone
  port_of_no_userInfo := fun hnone => nomatch hnone
  host_of_no_port := fun hnone => nomatch hnone
  resource := by
    intro resource hsome
    rw [← Option.some.inj hsome]
    refine ⟨written.path_delimiters, fun text hquery => ?_⟩
    rw [← Option.some.inj hquery]
    exact written.mark_notMem_queryChars

/-- Every parameter is written with an equals sign at least. -/
theorem filter_paramText :
    (written.params.filter fun param => (written.paramText param).toList ≠ []) =
      written.params := by
  refine List.filter_eq_self.mpr fun param _ => ?_
  simp [paramText]

theorem gives_location : written.spelling.parts.Gives written.text written.location where
  url_eq := rfl
  user := by
    have huser := upTo_append_cons (written.delimiters_notMem_encoded written.user).1
      (written.encoded written.password).toList
    simp only [Spelling.parts, spelling, userInfoChars, Option.getD_some, huser]
    exact Percent.decodeText_encodeText written.style written.user
  password := by
    have hpassword := behind_append_cons (written.delimiters_notMem_encoded written.user).1
      (written.encoded written.password).toList
    simp only [Spelling.parts, spelling, userInfoChars, Option.getD_some, hpassword]
    exact Percent.decodeText_encodeText written.style written.password
  host_ne_nil := fun hempty => written.host_ne_empty (String.toList_eq_nil_iff.mp hempty)
  host_eq := String.ofList_toList.symm
  port := .inr (namesPort_toString written.port)
  path_eq := String.ofList_toList.symm
  params := by
    have hparams := forall₂_isParam_query fun param (_ : param ∈ written.params) =>
      written.readsAs_paramText param
    rwa [filter_paramText] at hparams
  fragment_eq := String.ofList_toList.symm

/-- A written URL is read. -/
theorem parse_text : parse written.text = .ok written.location := by
  rw [Spelling.parse_eq_ofParts written.wellDivided_spelling written.text_spelling]
  exact ofParts_eq_ok_iff.mpr written.gives_location

end WrittenUrl

end Location

end StreamingHttp
