import StreamingHttp.Proofs.Location.Spelling
import StreamingHttp.Proofs.Location.WrittenQuery
import StreamingHttp.Request.Basic

/-!
# The target of a request is read back

The target is a path and a query which is written from decoded parameters.  A reader of
URLs which finds it behind a host finds the path again, and the parameters in their order.
Only a parameter with neither name nor value is lost, because it is written as nothing.

So a request for a location asks for its path and its parameters, whatever they hold.  If
further parameters are added, the first one of each name counts.
-/

namespace StreamingHttp

namespace Request

open Location Delimited

/-! ### The query which is written anew -/

/-- The parameters divided by `&`. -/
def queryChars (params : List (String × String)) : List Char :=
  ['&'].intercalate (params.map fun param => (paramText param).toList)

theorem toList_moreParamsText (param : String × String)
    (params : List (String × String)) :
    (paramText param).toList ++ (moreParamsText params).toList =
      queryChars (param :: params) := by
  induction params generalizing param with
  | nil =>
      rw [queryChars, List.map_singleton, List.intercalate_singleton]
      exact List.append_nil _
  | cons next params ih =>
      have hdivider : (moreParamsText (next :: params)).toList =
          '&' :: ((paramText next).toList ++ (moreParamsText params).toList) := by
        have htext : moreParamsText (next :: params) =
            "&" ++ paramText next ++ moreParamsText params := rfl
        rw [htext, String.toList_append, String.toList_append]
        rfl
      rw [hdivider, ih next, queryChars, queryChars, List.map_cons, List.map_cons,
        List.map_cons, List.intercalate_cons_cons, List.append_assoc]
      rfl

/-- A question mark and the parameters, or neither. -/
def query? (params : List (String × String)) : Option (List Char) :=
  if params = [] then none else some (queryChars params)

theorem getD_query? (params : List (String × String)) :
    (query? params).getD [] = queryChars params := by
  cases params <;> rfl

theorem toList_queryText (params : List (String × String)) :
    (queryText params).toList = suffix '?' (query? params) := by
  cases params with
  | nil => rfl
  | cons param params =>
      have htext : queryText (param :: params) =
          "?" ++ paramText param ++ moreParamsText params := rfl
      rw [query?, if_neg (List.cons_ne_nil _ _), ← toList_moreParamsText, htext,
        String.toList_append, String.toList_append]
      rfl

/-- A parameter is read back from its text. -/
theorem readsAs_paramText (param : String × String) :
    ReadsAs (paramText param).toList param := by
  obtain ⟨name, value⟩ := param
  by_cases hvalue : value = ""
  · subst hvalue
    exact readsAs_name .escape name
  · have hempty : value.isEmpty = false := by
      simpa using hvalue
    have hpair := readsAs_pair .escape (name, value)
    have hequals : "=".toList = ['='] := rfl
    simpa [paramText, hempty, hequals] using hpair

/-- Only a parameter with neither name nor value is written as nothing. -/
theorem toList_paramText_eq_nil_iff {param : String × String} :
    (paramText param).toList = [] ↔ param = ("", "") := by
  obtain ⟨name, value⟩ := param
  constructor
  · intro hnil
    -- Nothing is read as the parameter without name and value.
    have hparam := (readsAs_paramText (name, value)).isParam
    rw [hnil] at hparam
    have hnothing : Percent.decodeText [] = .ok "" := Percent.decodeText_encodeText .escape ""
    have hname := hnothing.symm.trans hparam.name
    have hvalue := hnothing.symm.trans hparam.value
    rw [Except.ok.injEq] at hname hvalue
    exact Prod.ext hname.symm hvalue.symm
  · rintro ⟨⟩
    rfl

/-! ### Targets -/

/-- What a reader of URLs makes of a target behind the host `h`. -/
def targetLocation (target path : String) (params : List (String × String)) :
    Location where
  url := "http://h/" ++ target
  user := ""
  password := ""
  host := "h"
  port := 80
  path := path
  params := params
  fragment := ""

/-- The pieces of a URL which ends with a target. -/
def targetSpelling (path : String) (params : List (String × String)) : Spelling where
  scheme := "http".toList
  userInfo := none
  host := ['h']
  port := none
  resource := some ⟨path.toList, query? params, none⟩

section Target

variable {path : String} (params : List (String × String))

theorem text_targetSpelling :
    (targetSpelling path params).text =
      ("http://h/" ++ (path ++ queryText params)).toList := by
  rw [String.toList_append, String.toList_append, toList_queryText]
  simp [targetSpelling, Spelling.text, Spelling.afterScheme, Spelling.authority,
    Spelling.hostPort, Resource.text, suffix]

theorem wellDivided_targetSpelling (hpath : '?' ∉ path.toList ∧ '#' ∉ path.toList) :
    (targetSpelling path params).WellDivided where
  scheme := map_toLower_eq_iff.mp rfl
  userInfo := fun _ hsome => nomatch hsome
  host := (by decide : '/' ∉ ['h'])
  port := fun _ hsome => nomatch hsome
  host_of_no_userInfo := fun _ => (by decide : '@' ∉ ['h'])
  port_of_no_userInfo := fun _ _ hsome => nomatch hsome
  host_of_no_port := fun _ => (by decide : ':' ∉ ['h'])
  resource := by
    intro resource hsome
    rw [← Option.some.inj hsome]
    refine ⟨hpath, fun text hquery => ?_⟩
    have hmark : '#' ∉ queryChars params :=
      mark_notMem_query fun param _ => readsAs_paramText param
    rwa [← getD_query?, show query? params = some text from hquery] at hmark

theorem gives_targetLocation :
    (targetSpelling path params).parts.Gives ("http://h/" ++ (path ++ queryText params))
      (targetLocation (path ++ queryText params) path (params.filter (· ≠ ("", "")))) where
  url_eq := rfl
  user := Percent.decodeText_encodeText .escape ""
  password := Percent.decodeText_encodeText .escape ""
  host_ne_nil := List.cons_ne_nil _ _
  host_eq := rfl
  port := .inl ⟨rfl, rfl⟩
  path_eq := String.ofList_toList.symm
  params := by
    have hkept : (params.filter fun param => (paramText param).toList ≠ []) =
        params.filter (· ≠ ("", "")) := by
      simp only [ne_eq, toList_paramText_eq_nil_iff]
    have hparams := forall₂_isParam_query fun param (_ : param ∈ params) =>
      readsAs_paramText param
    rw [hkept, ← queryChars, ← getD_query?] at hparams
    exact hparams
  fragment_eq := rfl

/-- A target is read back: its path, and its parameters in their order, but for those
with neither name nor value. -/
theorem parse_path_queryText (hpath : '?' ∉ path.toList ∧ '#' ∉ path.toList) :
    Location.parse ("http://h/" ++ (path ++ queryText params)) =
      .ok (targetLocation (path ++ queryText params) path
        (params.filter (· ≠ ("", "")))) := by
  rw [Spelling.parse_eq_ofParts (wellDivided_targetSpelling params hpath)
    (text_targetSpelling params)]
  exact ofParts_eq_ok_iff.mpr (gives_targetLocation params)

end Target

/-- If there is no such parameter, all of them are read back. -/
theorem parse_target {path : String} {params : List (String × String)}
    (hpath : '?' ∉ path.toList ∧ '#' ∉ path.toList) (hparams : ("", "") ∉ params) :
    Location.parse ("http://h/" ++ (path ++ queryText params)) =
      .ok (targetLocation (path ++ queryText params) path params) := by
  have hkept : params.filter (· ≠ ("", "")) = params := by
    refine List.filter_eq_self.mpr fun param hparam => ?_
    simpa using fun heq : param = ("", "") => hparams (heq ▸ hparam)
  rw [parse_path_queryText params hpath, hkept]

/-! ### Requests for a location -/

/-- The parameters whose name no earlier one has, in their order. -/
def withNewNames (params : List (String × String)) : List (String × String) :=
  (params.zipIdx.filter fun entry =>
    (params.take entry.2).all fun earlier => earlier.1 != entry.1.1).map (·.1)

theorem withNewNames_cons (param : String × String) (params : List (String × String)) :
    withNewNames (param :: params) =
      param :: (withNewNames params).filter (·.1 != param.1) := by
  -- Behind the first parameter every position is one more, and one more name is taken.
  have hshift : params.zipIdx 1 = params.zipIdx.map fun entry => (entry.1, entry.2 + 1) :=
    List.zipIdx_succ
  rw [withNewNames, withNewNames, List.zipIdx_cons, List.filter_cons_of_pos (by simp),
    List.map_cons, Nat.zero_add, hshift, List.filter_map, List.map_map, List.filter_map,
    List.filter_filter]
  refine congrArg (fun kept => param :: List.map Prod.fst kept)
    (List.filter_congr fun entry _ => ?_)
  simp only [Function.comp_apply, List.take_succ_cons, List.all_cons]
  rw [bne_comm]

theorem firstOfEachName_eq (params : List (String × String)) :
    firstOfEachName params = withNewNames params := by
  induction params with
  | nil => rfl
  | cons param params ih => rw [withNewNames_cons, ← ih, firstOfEachName]

/-- A path without its first slash, if it has one. -/
def WithoutSlash (path rest : String) : Prop :=
  path = "/" ++ rest ∨ path = rest ∧ rest.toList.head? ≠ some '/'

theorem WithoutSlash.relativePath_eq {path rest : String} (h : WithoutSlash path rest) :
    relativePath path = rest := by
  unfold relativePath
  obtain rfl | ⟨rfl, hhead⟩ := h
  · have htext : ("/" ++ rest).toList = '/' :: rest.toList := by
      rw [String.toList_append]
      rfl
    rw [htext]
    exact String.ofList_toList
  · split
    · next heq =>
        rw [heq] at hhead
        exact absurd rfl hhead
    · rfl

theorem WithoutSlash.notMem {path rest : String} (h : WithoutSlash path rest) {c : Char}
    (hc : c ∉ path.toList) : c ∉ rest.toList := by
  obtain rfl | ⟨rfl, -⟩ := h
  · rw [String.toList_append, List.mem_append, not_or] at hc
    exact hc.2
  · exact hc

/-- What a request for a location asks for is found again: its path and its parameters,
and of further parameters the first one of each name.  The same is true of another path
on its host with parameters of its own. -/
theorem parse_targets {url : String} {location : Location}
    (h : Location.parse url = .ok location) :
    Location.parse ("http://h/" ++ (ofLocation location).path) =
        .ok (targetLocation (ofLocation location).path location.path
          (location.params.filter (· ≠ ("", "")))) ∧
      (∀ extra : List (String × String),
        Location.parse ("http://h/" ++ (withParams location extra).path) =
          .ok (targetLocation (withParams location extra).path location.path
            ((withNewNames (location.params ++ extra)).filter (· ≠ ("", ""))))) ∧
      ∀ (path rest : String) (params : List (String × String)),
        '?' ∉ path.toList ∧ '#' ∉ path.toList → WithoutSlash path rest →
          Location.parse ("http://h/" ++ (withPathParams location path params).path) =
            .ok (targetLocation (withPathParams location path params).path rest
              (params.filter (· ≠ ("", "")))) := by
  have hpath := Spelling.path_delimiters_of_parse_eq_ok h
  refine ⟨parse_path_queryText location.params hpath, fun extra => ?_,
    fun path rest params hdelimiters hrest => ?_⟩
  · rw [← firstOfEachName_eq]
    exact parse_path_queryText (firstOfEachName (location.params ++ extra)) hpath
  · have htarget : (withPathParams location path params).path = rest ++ queryText params := by
      rw [← hrest.relativePath_eq]
      rfl
    rw [htarget]
    exact parse_path_queryText params
      ⟨hrest.notMem hdelimiters.1, hrest.notMem hdelimiters.2⟩

/-- One parameter has neither name nor value, and names and values hold delimiters.  The
further parameters have a name again, and the empty one. -/
theorem parse_targets_repeated_names :
    let url := "http://host//a=%2B?=&a%26=1+2&a%26=%3D&b=&=v#f"
    let location : Location :=
      { url := url
        user := ""
        password := ""
        host := "host"
        port := 80
        path := "/a=%2B"
        params := [("", ""), ("a&", "1 2"), ("a&", "="), ("b", ""), ("", "v")]
        fragment := "f" }
    let extra := [("b", "late"), ("", "late"), ("é?", "#")]
    let kept := [("a&", "1 2"), ("b", ""), ("é?", "#")]
    parse url = .ok location ∧
      Location.parse ("http://h/" ++ (withParams location extra).path) =
        .ok (targetLocation (withParams location extra).path "/a=%2B" kept) ∧
      Location.parse ("http://h/" ++ (withPathParams location "//x" extra).path) =
        .ok (targetLocation (withPathParams location "//x" extra).path "/x" extra) := by
  intro url location extra kept
  have hread : parse url = .ok location := by decide +kernel
  obtain ⟨-, hmore, hother⟩ := parse_targets hread
  have hkept : (withNewNames (location.params ++ extra)).filter (· ≠ ("", "")) = kept := by
    decide +kernel
  have hextra : extra.filter (· ≠ ("", "")) = extra := by decide +kernel
  have hmoreRead := hmore extra
  have hotherRead := hother "//x" "/x" extra (by decide) (.inl rfl)
  rw [hkept] at hmoreRead
  rw [hextra] at hotherRead
  exact ⟨hread, hmoreRead, hotherRead⟩

end Request

end StreamingHttp
