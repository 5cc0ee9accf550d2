import StreamingHttp.Proofs.Location.PartReading

/-!
# How URLs are spelled

A URL is spelled with a scheme, a host, and pieces which may be absent, each with the
delimiter which announces it: user information before `@`, a port behind `:`, and behind
`/` a path, a query behind `?` and a fragment behind `#`.  A piece may hold the delimiters
of others, but for those which would end it early.  This decides the order of cutting:

* the host may hold an `@` if there is user information, and a `:` if there is a port;
* the fragment may hold anything, the query no `#`, the path neither `#` nor `?`.

So a text has one spelling at most (`eq_of_text_eq`), and every text behind `http://` has
one (`exists_spelling`).  The reader cuts a URL into the pieces of its spelling
(`split_afterScheme`), and accepts it if and only if they can be decoded.
-/

namespace StreamingHttp

namespace Location

open Delimited

/-! ### Schemes -/

/-- The letters of `http`, each of them small or capital. -/
def IsHttp (scheme : List Char) : Prop :=
  List.Forall₂ (fun c letter => c = letter ∨ c = letter.toUpper) scheme "http".toList

theorem toNat_toLower (c : Char) :
    c.toLower.toNat = if 65 ≤ c.toNat ∧ c.toNat ≤ 90 then c.toNat + 32 else c.toNat := by
  have hrange : c.val ≥ 'A'.val ∧ c.val ≤ 'Z'.val ↔ 65 ≤ c.toNat ∧ c.toNat ≤ 90 := Iff.rfl
  unfold Char.toLower
  split
  · next hcapital =>
      rw [hrange] at hcapital
      have hsum : (c.val + ('a'.val - 'A'.val)).toNat = (c.toNat + 32) % 2 ^ 32 :=
        UInt32.toNat_add _ _
      rw [if_pos hcapital]
      exact hsum.trans (Nat.mod_eq_of_lt (by omega))
  · next hother =>
      rw [hrange] at hother
      rw [if_neg hother]

theorem toLower_eq_iff {c small capital : Char}
    (hsmall : 97 ≤ small.toNat ∧ small.toNat ≤ 122)
    (hcapital : capital.toNat + 32 = small.toNat) :
    c.toLower = small ↔ c = small ∨ c = capital := by
  rw [← Char.toNat_inj, ← Char.toNat_inj, ← Char.toNat_inj, toNat_toLower]
  split <;> omega

/-- A scheme is `http` if its small letters are. -/
theorem map_toLower_eq_iff {scheme : List Char} :
    scheme.map Char.toLower = "http".toList ↔ IsHttp scheme := by
  have hletter : ∀ letter ∈ "http".toList, ∀ c : Char,
      c.toLower = letter ↔ c = letter ∨ c = letter.toUpper := by
    intro letter hmem c
    have hletters : "http".toList = ['h', 't', 't', 'p'] := rfl
    have hrange : (97 ≤ letter.toNat ∧ letter.toNat ≤ 122) ∧
        letter.toUpper.toNat + 32 = letter.toNat := by
      simp only [hletters, List.mem_cons, List.not_mem_nil, or_false] at hmem
      rcases hmem with rfl | rfl | rfl | rfl <;> decide
    exact toLower_eq_iff hrange.1 hrange.2
  rw [IsHttp, ← List.forall₂_eq_eq_eq, List.forall₂_map_left_iff]
  generalize "http".toList = letters at hletter
  induction letters generalizing scheme with
  | nil => rw [List.forall₂_nil_right_iff, List.forall₂_nil_right_iff]
  | cons letter letters ih =>
      rw [List.forall_mem_cons] at hletter
      simp only [List.forall₂_cons_right_iff, hletter.1, ih hletter.2]

theorem IsHttp.colon_notMem {scheme : List Char} (h : IsHttp scheme) : ':' ∉ scheme := by
  intro hmem
  rw [← map_toLower_eq_iff] at h
  have hcolon : ':' ∈ "http".toList := by
    rw [← h]
    exact List.mem_map.mpr ⟨':', hmem, rfl⟩
  exact absurd hcolon (by decide)

/-! ### Spellings -/

/-- What is behind the slash of an authority. -/
structure Resource where
  path : List Char
  query : Option (List Char)
  fragment : Option (List Char)

/-- The pieces of a URL.  A piece which is absent is not the same as an empty one: its
delimiter is absent too. -/
structure Spelling where
  scheme : List Char
  userInfo : Option (List Char)
  host : List Char
  port : Option (List Char)
  resource : Option Resource

/-- A path, a query and a fragment. -/
def Resource.text (resource : Resource) : List Char :=
  resource.path ++ suffix '?' resource.query ++ suffix '#' resource.fragment

/-- No piece holds a delimiter which would end it early. -/
structure Resource.WellDivided (resource : Resource) : Prop where
  path : '?' ∉ resource.path ∧ '#' ∉ resource.path
  query : ∀ text, resource.query = some text → '#' ∉ text

namespace Spelling

/-- The host and the port. -/
def hostPort (spelling : Spelling) : List Char :=
  spelling.host ++ suffix ':' spelling.port

/-- The user information, the host and the port. -/
def authority (spelling : Spelling) : List Char :=
  match spelling.userInfo with
  | none => spelling.hostPort
  | some userInfo => userInfo ++ '@' :: spelling.hostPort

/-- What is behind the scheme and the two slashes. -/
def afterScheme (spelling : Spelling) : List Char :=
  spelling.authority ++ suffix '/' (spelling.resource.map Resource.text)

/-- The URL. -/
def text (spelling : Spelling) : List Char :=
  spelling.scheme ++ "://".toList ++ spelling.afterScheme

/-- No piece holds a delimiter which would end it early. -/
structure WellDivided (spelling : Spelling) : Prop where
  scheme : IsHttp spelling.scheme
  userInfo : ∀ text, spelling.userInfo = some text → '/' ∉ text ∧ '@' ∉ text
  host : '/' ∉ spelling.host
  port : ∀ text, spelling.port = some text → '/' ∉ text ∧ ':' ∉ text
  host_of_no_userInfo : spelling.userInfo = none → '@' ∉ spelling.host
  port_of_no_userInfo :
    spelling.userInfo = none → ∀ text, spelling.port = some text → '@' ∉ text
  host_of_no_port : spelling.port = none → ':' ∉ spelling.host
  resource : ∀ resource, spelling.resource = some resource → resource.WellDivided

/-- The parts which a reader decodes.  The user is what precedes the first colon of the
user information, and the password what follows it.  What is absent is empty. -/
def parts (spelling : Spelling) : Parts where
  user := upTo ':' (spelling.userInfo.getD [])
  password := behind ':' (spelling.userInfo.getD [])
  host := spelling.host
  port := spelling.port.getD []
  path := (spelling.resource.map Resource.path).getD []
  query := (spelling.resource.bind Resource.query).getD []
  fragment := (spelling.resource.bind Resource.fragment).getD []

/-- A URL which is spelled like this, and of which every part can be decoded. -/
structure Spells (spelling : Spelling) (url : String) : Prop where
  text_eq : spelling.text = url.toList
  wellDivided : spelling.WellDivided
  readable : spelling.parts.Readable

/-! ### Cutting a spelling -/

namespace WellDivided

variable {spelling : Spelling}

theorem slash_notMem_hostPort (h : spelling.WellDivided) : '/' ∉ spelling.hostPort := by
  rw [hostPort, List.mem_append, not_or]
  refine ⟨h.host, fun hmem => ?_⟩
  obtain ⟨text, hport, heq | hmem⟩ := mem_suffix.mp hmem
  · exact absurd heq (by decide)
  · exact (h.port text hport).1 hmem

theorem at_notMem_hostPort (h : spelling.WellDivided) (hnone : spelling.userInfo = none) :
    '@' ∉ spelling.hostPort := by
  rw [hostPort, List.mem_append, not_or]
  refine ⟨h.host_of_no_userInfo hnone, fun hmem => ?_⟩
  obtain ⟨text, hport, heq | hmem⟩ := mem_suffix.mp hmem
  · exact absurd heq (by decide)
  · exact h.port_of_no_userInfo hnone text hport hmem

theorem slash_notMem_authority (h : spelling.WellDivided) : '/' ∉ spelling.authority := by
  have hhostPort := h.slash_notMem_hostPort
  unfold authority
  split
  · exact hhostPort
  · next userInfo hsome =>
      simp [(h.userInfo userInfo hsome).1, hhostPort]

theorem cut_text (h : spelling.WellDivided) :
    cut ':' spelling.text = (spelling.scheme, some ('/' :: '/' :: spelling.afterScheme)) := by
  have htext : spelling.text = spelling.scheme ++ ':' :: '/' :: '/' :: spelling.afterScheme := by
    simp [text]
  rw [htext, cut_append_cons h.scheme.colon_notMem]

theorem cut_afterScheme (h : spelling.WellDivided) :
    cut '/' spelling.afterScheme =
      (spelling.authority, spelling.resource.map Resource.text) :=
  cut_append_suffix h.slash_notMem_authority _

/-- User information is found if there is any. -/
theorem cut_authority (h : spelling.WellDivided) :
    cut '@' spelling.authority =
      match spelling.userInfo with
      | none => (spelling.hostPort, none)
      | some userInfo => (userInfo, some spelling.hostPort) := by
  unfold authority
  cases huserInfo : spelling.userInfo with
  | none => exact cut_of_notMem (h.at_notMem_hostPort huserInfo)
  | some userInfo => exact cut_append_cons (h.userInfo userInfo huserInfo).2 _

theorem cutLast_hostPort (h : spelling.WellDivided) :
    cutLast ':' spelling.hostPort = (spelling.host, spelling.port) :=
  cutLast_append_suffix h.host_of_no_port fun text hport => (h.port text hport).2

theorem cut_resource (h : spelling.WellDivided) {resource : Resource}
    (hsome : spelling.resource = some resource) :
    cut '#' resource.text =
      (resource.path ++ suffix '?' resource.query, resource.fragment) := by
  refine cut_append_suffix ?_ _
  rw [List.mem_append, not_or]
  refine ⟨(h.resource resource hsome).path.2, fun hmem => ?_⟩
  obtain ⟨text, hquery, heq | hmem⟩ := mem_suffix.mp hmem
  · exact absurd heq (by decide)
  · exact (h.resource resource hsome).query text hquery hmem

theorem cut_path (h : spelling.WellDivided) {resource : Resource}
    (hsome : spelling.resource = some resource) :
    cut '?' (resource.path ++ suffix '?' resource.query) =
      (resource.path, resource.query) :=
  cut_append_suffix (h.resource resource hsome).path.1 _

end WellDivided

/-! ### Every text has one spelling -/

/-- What is cut first is the same, and so is what is cut from it. -/
theorem eq_of_text_eq {spelling other : Spelling} (h : spelling.WellDivided)
    (hother : other.WellDivided) (htext : spelling.text = other.text) : spelling = other := by
  have hscheme := h.cut_text
  rw [htext, hother.cut_text] at hscheme
  have hafter : spelling.afterScheme = other.afterScheme := by simp_all
  have hauthority := h.cut_afterScheme
  rw [hafter, hother.cut_afterScheme] at hauthority
  have huserInfo := h.cut_authority
  rw [← (Prod.mk.inj hauthority).1, hother.cut_authority] at huserInfo
  have hsame : spelling.userInfo = other.userInfo ∧ spelling.hostPort = other.hostPort := by
    cases hfirst : spelling.userInfo <;> cases hsecond : other.userInfo <;> simp_all
  have hhost := h.cutLast_hostPort
  rw [hsame.2, hother.cutLast_hostPort] at hhost
  have hresource : spelling.resource = other.resource := by
    have hmap := (Prod.mk.inj hauthority).2
    cases hfirst : spelling.resource with
    | none => simp_all
    | some resource =>
        cases hsecond : other.resource with
        | none => simp_all
        | some second =>
            have heq : second.text = resource.text := by simp_all
            have hfragment := h.cut_resource hfirst
            rw [← heq, hother.cut_resource hsecond] at hfragment
            have hpath := h.cut_path hfirst
            rw [← (Prod.mk.inj hfragment).1, hother.cut_path hsecond] at hpath
            cases resource
            cases second
            simp_all
  cases spelling
  cases other
  simp_all

/-- A path with a query and a fragment is spelled in some way. -/
theorem exists_resource (text : List Char) :
    ∃ resource : Resource, resource.text = text ∧ resource.WellDivided := by
  obtain ⟨front, fragment, rfl, hfront⟩ := exists_cut '#' text
  obtain ⟨path, query, rfl, hpath⟩ := exists_cut '?' front
  rw [List.mem_append, not_or] at hfront
  refine ⟨⟨path, query, fragment⟩, rfl, ⟨hpath, hfront.1⟩, fun text hquery hmem => ?_⟩
  exact hfront.2 (mem_suffix.mpr ⟨text, hquery, .inr hmem⟩)

/-- Whatever follows the two slashes is spelled in some way. -/
theorem exists_spelling {scheme : List Char} (h : IsHttp scheme) (rest : List Char) :
    ∃ spelling : Spelling, spelling.text = scheme ++ "://".toList ++ rest ∧
      spelling.WellDivided := by
  obtain ⟨authority, after, rfl, hslash⟩ := exists_cut '/' rest
  obtain ⟨resource, rfl, hresource⟩ :
      ∃ resource : Option Resource, resource.map Resource.text = after ∧
        ∀ found, resource = some found → found.WellDivided := by
    cases after with
    | none => exact ⟨none, rfl, by rintro _ ⟨⟩⟩
    | some text =>
        obtain ⟨found, rfl, hfound⟩ := exists_resource text
        exact ⟨some found, rfl, by rintro _ ⟨⟩; exact hfound⟩
  obtain ⟨first, second, rfl, hat⟩ := exists_cut '@' authority
  rw [List.mem_append, not_or] at hslash
  cases second with
  | none =>
      -- There is no user information, so the authority is host and port.
      obtain ⟨host, port, rfl, hhost, hport⟩ := exists_cutLast ':' first
      rw [List.mem_append, not_or] at hat hslash
      refine ⟨⟨scheme, none, host, port, resource⟩, ?_, h, by rintro _ ⟨⟩, hslash.1.1, ?_,
        fun _ => hat.1, ?_, hhost, hresource⟩
      · simp [text, afterScheme, authority, hostPort, suffix]
      · intro text hsome
        refine ⟨fun hmem => hslash.1.2 ?_, hport text hsome⟩
        exact mem_suffix.mpr ⟨text, hsome, .inr hmem⟩
      · intro _ text hsome hmem
        exact hat.2 (mem_suffix.mpr ⟨text, hsome, .inr hmem⟩)
  | some hostPort =>
      obtain ⟨host, port, rfl, hhost, hport⟩ := exists_cutLast ':' hostPort
      have hrest : '/' ∉ host ∧ '/' ∉ suffix ':' port := by
        have hbehind := hslash.2
        rw [suffix, List.mem_cons, List.mem_append, not_or, not_or] at hbehind
        exact hbehind.2
      refine ⟨⟨scheme, some first, host, port, resource⟩, ?_, h, ?_, hrest.1, ?_,
        by rintro ⟨⟩, by rintro ⟨⟩, hhost, hresource⟩
      · simp [text, afterScheme, authority, Spelling.hostPort, suffix]
      · rintro _ ⟨⟩
        exact ⟨hslash.1, hat⟩
      · intro text hsome
        refine ⟨fun hmem => hrest.2 ?_, hport text hsome⟩
        exact mem_suffix.mpr ⟨text, hsome, .inr hmem⟩

/-! ### Reading a URL -/

/-- The scheme and the two slashes are cut off. -/
theorem afterSlashes_text {spelling : Spelling} (h : spelling.WellDivided) :
    afterSlashes spelling.text = .ok spelling.afterScheme := by
  rw [afterSlashes, h.cut_text]
  dsimp only
  rw [if_pos (map_toLower_eq_iff.mpr h.scheme)]
  rfl

/-- Cutting finds the pieces. -/
theorem split_afterScheme {spelling : Spelling} (h : spelling.WellDivided) :
    Parts.split spelling.afterScheme = spelling.parts := by
  have hauthority : splitAuthority spelling.authority =
      (spelling.userInfo.getD [], spelling.hostPort) := by
    rw [splitAuthority, h.cut_authority]
    cases spelling.userInfo <;> rfl
  simp only [Parts.split, h.cut_afterScheme, hauthority, h.cutLast_hostPort, parts,
    ← cut_fst, ← getD_cut_snd]
  cases hresource : spelling.resource with
  | none => rfl
  | some resource =>
      simp only [Option.map_some, Option.getD_some, h.cut_resource hresource,
        h.cut_path hresource, Option.bind_some]

/-- A reader decodes the pieces of the spelling. -/
theorem parse_eq_ofParts {spelling : Spelling} {url : String} (h : spelling.WellDivided)
    (htext : spelling.text = url.toList) : parse url = ofParts url spelling.parts := by
  rw [parse, ← htext, afterSlashes_text h, ← split_afterScheme h]
  rfl

/-- A URL with the scheme and the two slashes is spelled in some way. -/
theorem exists_of_afterSlashes_eq_ok {url rest : List Char} (h : afterSlashes url = .ok rest) :
    ∃ spelling : Spelling, spelling.text = url ∧ spelling.WellDivided := by
  rw [afterSlashes] at h
  split at h
  next scheme after hcut =>
    split at h
    · next hscheme =>
        split at h
        · cases h
          obtain ⟨rfl, -⟩ := eq_of_cut_eq_some hcut
          obtain ⟨spelling, hspelling, hdivided⟩ :=
            exists_spelling (map_toLower_eq_iff.mp hscheme) rest
          refine ⟨spelling, ?_, hdivided⟩
          rw [hspelling]
          simp
        · cases h
    · cases h

/-- A URL which is accepted is spelled in some way. -/
theorem exists_of_parse_eq_ok {url : String} {location : Location}
    (h : parse url = .ok location) :
    ∃ spelling : Spelling, spelling.text = url.toList ∧ spelling.WellDivided := by
  rw [parse, bind_eq_ok_iff] at h
  obtain ⟨rest, hrest, -⟩ := h
  exact exists_of_afterSlashes_eq_ok hrest

/-- The path of a location ends before its query and its fragment. -/
theorem path_delimiters_of_parse_eq_ok {url : String} {location : Location}
    (h : parse url = .ok location) :
    '?' ∉ location.path.toList ∧ '#' ∉ location.path.toList := by
  obtain ⟨spelling, htext, hdivided⟩ := exists_of_parse_eq_ok h
  rw [parse_eq_ofParts hdivided htext, ofParts_eq_ok_iff] at h
  rw [h.path_eq, String.toList_ofList, parts]
  cases hresource : spelling.resource with
  | none => exact ⟨List.not_mem_nil, List.not_mem_nil⟩
  | some resource => exact (hdivided.resource resource hresource).path

/-- A location has a host. -/
theorem host_ne_empty_of_parse_eq_ok {url : String} {location : Location}
    (h : parse url = .ok location) : location.host ≠ "" := by
  obtain ⟨spelling, htext, hdivided⟩ := exists_of_parse_eq_ok h
  rw [parse_eq_ofParts hdivided htext, ofParts_eq_ok_iff] at h
  rw [h.host_eq, Ne, ← String.toList_inj, String.toList_ofList]
  exact h.host_ne_nil

/-! ### What is accepted -/

/-- A URL is accepted if and only if it is spelled with pieces which can be decoded.  It
has one spelling only, and is read as the location which the parts of this spelling
give. -/
theorem parse_accepts_spelled (url : String) :
    ((∃ location, parse url = .ok location) ↔ ∃ spelling : Spelling, spelling.Spells url) ∧
      (∀ spelling other : Spelling, spelling.Spells url → other.Spells url →
        spelling = other) ∧
      ∀ spelling : Spelling, spelling.Spells url → ∀ location,
        parse url = .ok location ↔ spelling.parts.Gives url location := by
  have hparse {spelling : Spelling} (hdivided : spelling.WellDivided)
      (htext : spelling.text = url.toList) (location : Location) :
      parse url = .ok location ↔ spelling.parts.Gives url location := by
    rw [parse_eq_ofParts hdivided htext, ofParts_eq_ok_iff]
  refine ⟨⟨?_, ?_⟩, ?_, ?_⟩
  · rintro ⟨location, haccepted⟩
    obtain ⟨spelling, htext, hdivided⟩ := exists_of_parse_eq_ok haccepted
    have hgives := (hparse hdivided htext location).mp haccepted
    exact ⟨spelling, htext, hdivided, (Parts.exists_gives_iff url).mp ⟨location, hgives⟩⟩
  · rintro ⟨spelling, htext, hdivided, hreadable⟩
    obtain ⟨location, hgives⟩ := (Parts.exists_gives_iff url).mpr hreadable
    exact ⟨location, (hparse hdivided htext location).mpr hgives⟩
  · intro spelling other hspells hother
    exact eq_of_text_eq hspells.wellDivided hother.wellDivided
      (hspells.text_eq.trans hother.text_eq.symm)
  · intro spelling hspells
    exact hparse hspells.wellDivided hspells.text_eq

/-- The pieces hold the delimiters of others: the password a colon, the host an at sign
and a colon, the path both, a value an equals sign and the fragment all of them.  The port
has a sign and a leading zero, and one parameter has no name. -/
theorem parse_accepts_spelled_delimiters :
    let url := "hTTp://u%40:p:@h@x:y:+0443/a:b@?k=v=w&&=%20&k#f?#/"
    let spelling : Spelling :=
      { scheme := "hTTp".toList
        userInfo := some "u%40:p:".toList
        host := "h@x:y".toList
        port := some "+0443".toList
        resource := some ⟨"a:b@".toList, some "k=v=w&&=%20&k".toList, some "f?#/".toList⟩ }
    let location : Location :=
      { url := url
        user := "u@"
        password := "p:"
        host := "h@x:y"
        port := 443
        path := "a:b@"
        params := [("k", "v=w"), ("", " "), ("k", "")]
        fragment := "f?#/" }
    spelling.Spells url ∧ parse url = .ok location ∧
      ∀ other : Spelling, other.Spells url → other = spelling := by
  intro url spelling location
  have htext : spelling.text = url.toList := by decide
  have hdivided : spelling.WellDivided := by
    refine ⟨map_toLower_eq_iff.mp (by decide), ?_, by decide, ?_, by rintro ⟨⟩,
      by rintro ⟨⟩, by rintro ⟨⟩, ?_⟩
    · rintro _ ⟨⟩
      decide
    · rintro _ ⟨⟩
      decide
    · rintro _ ⟨⟩
      refine ⟨by decide, ?_⟩
      rintro _ ⟨⟩
      decide
  have hport : NamesPort "+0443".toList 443 :=
    ⟨"0443".toList, .inr (by decide), by decide, List.all_eq_true.mp (by decide), by decide⟩
  have hpieces : pieces "k=v=w&&=%20&k".toList =
      ["k=v=w".toList, "=%20".toList, "k".toList] := by
    decide
  have hparams : List.Forall₂ IsParam ["k=v=w".toList, "=%20".toList, "k".toList]
      location.params :=
    .cons ⟨by decide +kernel, by decide +kernel⟩
      (.cons ⟨by decide +kernel, by decide +kernel⟩
        (.cons ⟨by decide +kernel, by decide +kernel⟩ .nil))
  have hgives : spelling.parts.Gives url location :=
    { url_eq := rfl
      user := by decide +kernel
      password := by decide +kernel
      host_ne_nil := by decide
      host_eq := rfl
      port := .inr hport
      path_eq := rfl
      params := by rwa [← hpieces] at hparams
      fragment_eq := rfl }
  have hspells : spelling.Spells url :=
    ⟨htext, hdivided, (Parts.exists_gives_iff url).mp ⟨location, hgives⟩⟩
  obtain ⟨-, hunique, hread⟩ := parse_accepts_spelled url
  exact ⟨hspells, (hread spelling hspells location).mpr hgives,
    fun other hother => hunique other spelling hother hspells⟩

end Spelling

end Location

end StreamingHttp
