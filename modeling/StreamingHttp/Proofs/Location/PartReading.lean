import StreamingHttp.Location.Parser
import StreamingHttp.Proofs.Decimal
import StreamingHttp.Proofs.Delimited
import StreamingHttp.Proofs.Percent
import Mathlib.Data.List.Forall2

/-!
# Reading the parts of a location

The parts of a URL *give* a location if user, password and parameters are decoded to those
of the location, the port names its port, and the other parts are its own as they stand.
`ofParts_eq_ok_iff` shows that the reader gives this location and no other, and
`exists_gives_iff` says for which parts there is one.
-/

namespace StreamingHttp

namespace Location

open Delimited

theorem bind_eq_ok_iff {α β : Type} {first : Except Fault α} {next : α → Except Fault β}
    {b : β} : (first >>= next) = .ok b ↔ ∃ a, first = .ok a ∧ next a = .ok b := by
  cases first with
  | error fault =>
      constructor
      · intro h
        cases h
      · rintro ⟨a, ha, -⟩
        cases ha
  | ok a =>
      constructor
      · intro h
        exact ⟨a, rfl, h⟩
      · rintro ⟨_, ⟨⟩, h⟩
        exact h

/-! ### Decoding -/

/-- Whatever names the part, it is read as what it decodes to. -/
theorem decodePart_eq_ok_iff {fault : String → Percent.Fault → Fault} {raw : List Char}
    {text : String} :
    decodePart fault raw = .ok text ↔ Percent.decodeText raw = .ok text := by
  rw [decodePart]
  cases Percent.decodeText raw with
  | error cause =>
      constructor <;> intro h <;> cases h
  | ok decoded =>
      constructor <;> intro h <;> cases h <;> rfl

theorem checkHost_eq_ok_iff {raw : List Char} {host : String} :
    checkHost raw = .ok host ↔ raw ≠ [] ∧ host = String.ofList raw := by
  cases raw with
  | nil => simp [checkHost]
  | cons c raw => simp [checkHost, eq_comm]

/-! ### Ports -/

/-- A port as it is written: decimal digits behind one plus sign or none, with any number
of leading zeros. -/
def NamesPort (text : List Char) (port : UInt16) : Prop :=
  ∃ digits, (text = digits ∨ text = '+' :: digits) ∧ digits ≠ [] ∧
    (∀ c ∈ digits, c.isDigit = true) ∧ Nat.ofDigitChars 10 digits 0 = port.toNat

theorem NamesPort.ne_nil {text : List Char} {port : UInt16} (h : NamesPort text port) :
    text ≠ [] := by
  obtain ⟨digits, rfl | rfl, hne, -⟩ := h
  · exact hne
  · exact List.cons_ne_nil _ _

/-- A numeral below 65536 is the port of its value. -/
theorem map_ofNat_read?_eq_some_iff {digits : List Char} {port : UInt16} :
    (Decimal.read? 65536 (Utf8.encode digits)).map UInt16.ofNat = some port ↔
      digits ≠ [] ∧ (∀ c ∈ digits, c.isDigit = true) ∧
        Nat.ofDigitChars 10 digits 0 = port.toNat := by
  rw [Option.map_eq_some_iff]
  constructor
  · rintro ⟨number, hread, rfl⟩
    obtain ⟨hne, hdigits, hvalue, hbound⟩ :=
      (Decimal.read?_encode_eq_some_iff (by decide)).mp hread
    refine ⟨hne, hdigits, ?_⟩
    rw [hvalue, UInt16.toNat_ofNat', Nat.mod_eq_of_lt hbound]
  · rintro ⟨hne, hdigits, hvalue⟩
    refine ⟨port.toNat, ?_, UInt16.ofNat_toNat⟩
    exact (Decimal.read?_encode_eq_some_iff (by decide)).mpr
      ⟨hne, hdigits, hvalue, port.toNat_lt⟩

theorem portValue?_eq_some_iff {text : List Char} {port : UInt16} :
    portValue? text = some port ↔ NamesPort text port := by
  unfold portValue?
  split
  · next digits =>
      dsimp only
      rw [map_ofNat_read?_eq_some_iff]
      constructor
      · rintro ⟨hne, hdigits, hvalue⟩
        exact ⟨digits, .inr rfl, hne, hdigits, hvalue⟩
      · rintro ⟨others, rfl | heq, hne, hdigits, hvalue⟩
        · -- A plus sign is no digit.
          exact absurd (hdigits '+' List.mem_cons_self) (by decide)
        · cases heq
          exact ⟨hne, hdigits, hvalue⟩
  · next hsign =>
      dsimp only
      rw [map_ofNat_read?_eq_some_iff]
      constructor
      · rintro ⟨hne, hdigits, hvalue⟩
        exact ⟨text, .inl rfl, hne, hdigits, hvalue⟩
      · rintro ⟨digits, rfl | rfl, hne, hdigits, hvalue⟩
        · exact ⟨hne, hdigits, hvalue⟩
        · exact absurd rfl (hsign digits)

theorem readPort_eq_ok_iff {raw : List Char} {port : UInt16} :
    readPort raw = .ok port ↔ raw = [] ∧ port = 80 ∨ NamesPort raw port := by
  cases raw with
  | nil =>
      have hnil : readPort [] = .ok 80 := rfl
      rw [hnil, Except.ok.injEq]
      constructor
      · rintro rfl
        exact .inl ⟨rfl, rfl⟩
      · rintro (⟨-, rfl⟩ | hport)
        · rfl
        · exact absurd rfl hport.ne_nil
  | cons c raw =>
      rw [readPort, ← portValue?_eq_some_iff]
      cases portValue? (c :: raw) with
      | none => simp
      | some value => simp

/-- A port is named by its numeral. -/
theorem namesPort_toString (port : UInt16) :
    NamesPort (toString port.toNat).toList port := by
  rw [Nat.toString_eq_ofList_toDigits, String.toList_ofList]
  refine ⟨_, .inl rfl, Nat.toDigits_ne_nil, fun c hc => ?_, ?_⟩
  · exact Nat.isDigit_of_mem_toDigits (by decide) (by decide) hc
  · exact Nat.ofDigitChars_ten_toDigits

/-- The characters of a numeral are digits. -/
theorem notMem_toString {c : Char} (hc : c.isDigit = false) (n : Nat) :
    c ∉ (toString n).toList := by
  intro hmem
  rw [Nat.toString_eq_ofList_toDigits, String.toList_ofList] at hmem
  rw [Nat.isDigit_of_mem_toDigits (by decide) (by decide) hmem] at hc
  cases hc

/-! ### Parameters -/

/-- A piece of a query: a name, and a value behind its first equals sign. -/
structure IsParam (raw : List Char) (param : String × String) : Prop where
  name : Percent.decodeText (upTo '=' raw) = .ok param.1
  value : Percent.decodeText (behind '=' raw) = .ok param.2

theorem decodeParam_eq_ok_iff {raw : List Char} {param : String × String} :
    decodeParam raw = .ok param ↔ IsParam raw param := by
  obtain ⟨name, value⟩ := param
  have hcut : decodeParam raw = (do
      let name ← decodePart .parameter (cut '=' raw).1
      let value ← decodePart .value ((cut '=' raw).2.getD [])
      return (name, value)) := rfl
  rw [hcut, cut_fst, getD_cut_snd]
  simp only [bind_eq_ok_iff, decodePart_eq_ok_iff]
  constructor
  · rintro ⟨_, hname, _, hvalue, ⟨⟩⟩
    exact ⟨hname, hvalue⟩
  · rintro ⟨hname, hvalue⟩
    exact ⟨name, hname, value, hvalue, rfl⟩

theorem mapM_decodeParam_eq_ok_iff {pieces : List (List Char)}
    {params : List (String × String)} :
    pieces.mapM decodeParam = .ok params ↔ List.Forall₂ IsParam pieces params := by
  induction pieces generalizing params with
  | nil =>
      rw [List.forall₂_nil_left_iff]
      constructor
      · rintro ⟨⟩
        rfl
      · rintro rfl
        rfl
  | cons raw pieces ih =>
      rw [List.mapM_cons, List.forall₂_cons_left_iff]
      simp only [bind_eq_ok_iff, decodeParam_eq_ok_iff, ih]
      constructor
      · rintro ⟨param, hparam, later, hlater, ⟨⟩⟩
        exact ⟨param, later, hparam, hlater, rfl⟩
      · rintro ⟨param, later, hparam, hlater, rfl⟩
        exact ⟨param, hparam, later, hlater, rfl⟩

/-- Parameters are found for pieces if one is found for each of them. -/
theorem exists_forall₂_isParam_iff {pieces : List (List Char)} :
    (∃ params, List.Forall₂ IsParam pieces params) ↔
      ∀ raw ∈ pieces, ∃ param, IsParam raw param := by
  induction pieces with
  | nil => simp
  | cons raw pieces ih =>
      rw [List.forall_mem_cons, ← ih]
      constructor
      · rintro ⟨_, hfirst⟩
        cases hfirst with
        | cons hparam hlater => exact ⟨⟨_, hparam⟩, _, hlater⟩
      · rintro ⟨⟨param, hparam⟩, later, hlater⟩
        exact ⟨param :: later, .cons hparam hlater⟩

/-- The pieces of a query between its dividers, without the empty ones. -/
def pieces (query : List Char) : List (List Char) :=
  (query.splitOn '&').filter (· ≠ [])

theorem rawParams_eq_pieces (query : List Char) : rawParams query = pieces query := by
  rw [rawParams, pieces]
  congr 1
  funext raw
  cases raw <;> rfl

/-! ### All parts -/

/-- The location which the parts of a URL give. -/
structure Parts.Gives (parts : Parts) (url : String) (location : Location) : Prop where
  url_eq : location.url = url
  user : Percent.decodeText parts.user = .ok location.user
  password : Percent.decodeText parts.password = .ok location.password
  host_ne_nil : parts.host ≠ []
  host_eq : location.host = String.ofList parts.host
  port : parts.port = [] ∧ location.port = 80 ∨ NamesPort parts.port location.port
  path_eq : location.path = String.ofList parts.path
  params : List.Forall₂ IsParam (pieces parts.query) location.params
  fragment_eq : location.fragment = String.ofList parts.fragment

/-- The reader finds what the parts give. -/
theorem ofParts_eq_ok_iff {url : String} {parts : Parts} {location : Location} :
    ofParts url parts = .ok location ↔ parts.Gives url location := by
  rw [ofParts]
  simp only [bind_eq_ok_iff, decodePart_eq_ok_iff, checkHost_eq_ok_iff, readPort_eq_ok_iff,
    rawParams_eq_pieces, mapM_decodeParam_eq_ok_iff]
  constructor
  · rintro ⟨_, huser, _, hpassword, _, ⟨hne, rfl⟩, _, hport, _, hparams, ⟨⟩⟩
    exact ⟨rfl, huser, hpassword, hne, rfl, hport, rfl, hparams, rfl⟩
  · rintro ⟨hurl, huser, hpassword, hne, hhost, hport, hpath, hparams, hfragment⟩
    refine ⟨_, huser, _, hpassword, _, ⟨hne, rfl⟩, _, hport, _, hparams, ?_⟩
    obtain ⟨url, user, password, host, port, path, params, fragment⟩ := location
    dsimp only at *
    subst hurl hhost hpath hfragment
    rfl

/-- Parts in which everything can be decoded. -/
structure Parts.Readable (parts : Parts) : Prop where
  user : ∃ user, Percent.decodeText parts.user = .ok user
  password : ∃ password, Percent.decodeText parts.password = .ok password
  host_ne_nil : parts.host ≠ []
  port : parts.port = [] ∨ ∃ port, NamesPort parts.port port
  params : ∀ raw ∈ pieces parts.query, ∃ param, IsParam raw param

theorem Parts.exists_gives_iff {parts : Parts} (url : String) :
    (∃ location, parts.Gives url location) ↔ parts.Readable := by
  constructor
  · rintro ⟨location, h⟩
    refine ⟨⟨_, h.user⟩, ⟨_, h.password⟩, h.host_ne_nil, ?_,
      exists_forall₂_isParam_iff.mp ⟨_, h.params⟩⟩
    rcases h.port with hport | hport
    · exact .inl hport.1
    · exact .inr ⟨_, hport⟩
  · rintro ⟨⟨user, huser⟩, ⟨password, hpassword⟩, hne, hport, hparams⟩
    obtain ⟨params, hparams⟩ := exists_forall₂_isParam_iff.mpr hparams
    obtain ⟨port, hport⟩ :
        ∃ port, parts.port = [] ∧ port = 80 ∨ NamesPort parts.port port := by
      rcases hport with hnil | ⟨port, hport⟩
      · exact ⟨80, .inl ⟨hnil, rfl⟩⟩
      · exact ⟨port, .inr hport⟩
    exact ⟨⟨url, user, password, _, port, _, params, _⟩, rfl, huser, hpassword, hne, rfl,
      hport, rfl, hparams, rfl⟩

end Location

end StreamingHttp
