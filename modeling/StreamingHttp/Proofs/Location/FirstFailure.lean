import StreamingHttp.Proofs.Location.Spelling

/-!
# Which fault of a URL is reported

A URL is checked in a fixed order: its scheme, the two slashes, and then the parts of its
spelling, the user, the password, the host, the port and the parameters from left to right,
the name of each before its value.  The fault which is reported is that of the first check
which is not passed, whatever is at fault behind it.

A reader *makes* a list of checks if it fails with what the first failing one of them
reports.  Readers which are run one after the other make their checks one after the other
(`makes_bind`), so the order is read off the reader.

A part which is at fault is reported as it stands in the URL, and the position inside it is
that of a percent sign.
-/

namespace StreamingHttp

namespace Location

open Delimited

/-! ### Checks -/

/-- The parts of a URL which are percent-encoded. -/
inductive Encoded where
  | user
  | password
  | name
  | value

/-- What is reported of a part which cannot be decoded. -/
def Encoded.fault : Encoded → String → Percent.Fault → Fault
  | user => .user
  | password => .password
  | name => .parameter
  | value => .value

/-- What is checked of the parts of a URL. -/
inductive Check where
  /-- A part can be decoded. -/
  | decode (part : Encoded) (raw : List Char)
  /-- The host is not empty. -/
  | host (raw : List Char)
  /-- The port is empty, or it names a port. -/
  | port (raw : List Char)

/-- The part which is checked, as it stands in the URL. -/
def Check.raw : Check → List Char
  | decode _ raw => raw
  | host raw => raw
  | port raw => raw

/-- A check which is not passed reports a fault. -/
inductive Check.Fails : Check → Fault → Prop
  | decode {part : Encoded} {raw : List Char} {cause : Percent.Fault}
      (undecodable : Percent.decodeText raw = .error cause) :
      Fails (.decode part raw) (part.fault (String.ofList raw) cause)
  | host : Fails (.host []) .emptyHost
  | port {raw : List Char} (ne_nil : raw ≠ []) (unnamed : ∀ port, ¬ NamesPort raw port) :
      Fails (.port raw) (.badPort (String.ofList raw))

/-- A check which reports nothing. -/
def Check.Passes (check : Check) : Prop :=
  ∀ fault, ¬ check.Fails fault

/-- The first check which is not passed reports this fault. -/
def Reports (checks : List Check) (fault : Fault) : Prop :=
  ∃ earlier check later, checks = earlier ++ check :: later ∧
    (∀ other ∈ earlier, other.Passes) ∧ check.Fails fault

theorem not_reports_nil (fault : Fault) : ¬ Reports [] fault := by
  rintro ⟨earlier, check, later, heq, -⟩
  simp at heq

theorem reports_cons_iff {check : Check} {checks : List Check} {fault : Fault} :
    Reports (check :: checks) fault ↔
      check.Fails fault ∨ check.Passes ∧ Reports checks fault := by
  constructor
  · rintro ⟨earlier, first, later, heq, hearlier, hfails⟩
    cases earlier with
    | nil =>
        cases heq
        exact .inl hfails
    | cons passed earlier =>
        cases heq
        rw [List.forall_mem_cons] at hearlier
        exact .inr ⟨hearlier.1, earlier, first, later, rfl, hearlier.2, hfails⟩
  · rintro (hfails | ⟨hpasses, earlier, first, later, rfl, hearlier, hfails⟩)
    · exact ⟨[], check, checks, rfl, by simp, hfails⟩
    · refine ⟨check :: earlier, first, later, rfl, ?_, hfails⟩
      rw [List.forall_mem_cons]
      exact ⟨hpasses, hearlier⟩

/-- Behind checks which are passed, the further ones decide. -/
theorem reports_append_iff {checks others : List Check} {fault : Fault} :
    Reports (checks ++ others) fault ↔
      Reports checks fault ∨ (∀ check ∈ checks, check.Passes) ∧ Reports others fault := by
  induction checks with
  | nil => simp [not_reports_nil]
  | cons check checks ih =>
      rw [List.cons_append, reports_cons_iff, reports_cons_iff, ih, List.forall_mem_cons]
      by_cases hpasses : check.Passes <;> simp [hpasses, or_assoc]

/-- Something is reported unless every check is passed. -/
theorem forall_not_reports_iff {checks : List Check} :
    (∀ fault, ¬ Reports checks fault) ↔ ∀ check ∈ checks, check.Passes := by
  induction checks with
  | nil => simp [not_reports_nil]
  | cons check checks ih =>
      rw [List.forall_mem_cons, ← ih]
      simp only [reports_cons_iff, not_or, not_and]
      constructor
      · intro h
        have hpasses : check.Passes := fun fault => (h fault).1
        exact ⟨hpasses, fun fault => (h fault).2 hpasses⟩
      · rintro ⟨hpasses, hlater⟩ fault
        exact ⟨hpasses fault, fun _ => hlater fault⟩

/-! ### The checks of a reader -/

/-- A reader fails with what the first failing check reports. -/
def Makes {α : Type} (reader : Except Fault α) (checks : List Check) : Prop :=
  ∀ fault, reader = .error fault ↔ Reports checks fault

section Makes

variable {α β : Type} {first : Except Fault α} {next : α → Except Fault β}
  {checks others : List Check}

theorem makes_pure (a : α) : Makes (pure a) [] := by
  intro fault
  exact ⟨(nomatch ·), fun h => absurd h (not_reports_nil fault)⟩

/-- Readers which are run one after the other. -/
theorem makes_bind (hfirst : Makes first checks) (hnext : ∀ a, Makes (next a) others) :
    Makes (first >>= next) (checks ++ others) := by
  intro fault
  rw [reports_append_iff, ← hfirst fault]
  cases first with
  | error found =>
      -- The fault is reported by one of the checks, so the further ones do not count.
      have hfailed : ¬ ∀ check ∈ checks, check.Passes := fun hpasses =>
        forall_not_reports_iff.mpr hpasses found ((hfirst found).mp rfl)
      have hbind : (Except.error found >>= next) = .error found := rfl
      rw [or_iff_left fun h => hfailed h.1, hbind, Except.error.injEq, Except.error.injEq]
  | ok a =>
      have hpassed : ∀ check ∈ checks, check.Passes :=
        forall_not_reports_iff.mp fun fault hreports => nomatch (hfirst fault).mpr hreports
      rw [← hnext a fault, and_iff_right hpassed, or_iff_right (nomatch ·)]
      rfl

/-- A reader of one part, and those behind it. -/
theorem makes_cons {check : Check} (hfirst : Makes first [check])
    (hnext : ∀ a, Makes (next a) others) : Makes (first >>= next) (check :: others) :=
  makes_bind hfirst hnext

/-- What is made of the parts at the end is not checked. -/
theorem makes_bind_pure (hfirst : Makes first checks) (result : α → β) :
    Makes (first >>= fun a => pure (result a)) checks := by
  have hmakes := makes_bind hfirst fun a => makes_pure (result a)
  rwa [List.append_nil] at hmakes

theorem makes_singleton {check : Check}
    (h : ∀ fault, first = .error fault ↔ check.Fails fault) : Makes first [check] := by
  intro fault
  rw [h, reports_cons_iff]
  simp [not_reports_nil]

end Makes

theorem makes_decodePart (part : Encoded) (raw : List Char) :
    Makes (decodePart part.fault raw) [.decode part raw] := by
  refine makes_singleton fun fault => ?_
  rw [decodePart]
  constructor
  · intro h
    cases hread : Percent.decodeText raw with
    | ok text =>
        rw [hread] at h
        cases h
    | error cause =>
        rw [hread] at h
        cases h
        exact .decode hread
  · rintro ⟨hread⟩
    rw [hread]
    rfl

theorem makes_checkHost (raw : List Char) : Makes (checkHost raw) [.host raw] := by
  refine makes_singleton fun fault => ?_
  cases raw with
  | nil =>
      constructor
      · rintro ⟨⟩
        exact .host
      · rintro ⟨⟩
        rfl
  | cons c raw =>
      constructor
      · rintro ⟨⟩
      · rintro ⟨⟩

theorem makes_readPort (raw : List Char) : Makes (readPort raw) [.port raw] := by
  refine makes_singleton fun fault => ?_
  constructor
  · intro h
    have hunnamed : ∀ port, ¬ NamesPort raw port := by
      intro port hport
      rw [readPort_eq_ok_iff.mpr (.inr hport)] at h
      cases h
    have hne : raw ≠ [] := by
      rintro rfl
      cases h
    rw [readPort, if_neg (by simpa using hne)] at h
    split at h
    · cases h
    · cases h
      exact .port hne hunnamed
  · rintro ⟨⟩
    next hne hunnamed =>
      have hnone : portValue? raw = none := by
        rw [Option.eq_none_iff_forall_ne_some]
        exact fun port hport => hunnamed port (portValue?_eq_some_iff.mp hport)
      rw [readPort, if_neg (by simpa using hne), hnone]

/-- The name of a parameter is checked before its value. -/
def paramChecks (raw : List Char) : List Check :=
  [.decode .name (upTo '=' raw), .decode .value (behind '=' raw)]

theorem makes_decodeParam (raw : List Char) : Makes (decodeParam raw) (paramChecks raw) := by
  have hread : decodeParam raw = (do
      let name ← decodePart Encoded.name.fault (upTo '=' raw)
      let value ← decodePart Encoded.value.fault (behind '=' raw)
      return (name, value)) := by
    rw [← cut_fst, ← getD_cut_snd]
    rfl
  rw [hread]
  exact makes_cons (makes_decodePart _ _) fun _ =>
    makes_bind_pure (makes_decodePart _ _) _

theorem makes_mapM_decodeParam (raws : List (List Char)) :
    Makes (raws.mapM decodeParam) (raws.flatMap paramChecks) := by
  induction raws with
  | nil => exact makes_pure []
  | cons raw raws ih =>
      rw [List.mapM_cons, List.flatMap_cons]
      exact makes_bind (makes_decodeParam raw) fun _ => makes_bind_pure ih _

/-- The checks of the parts of a URL, in their order. -/
def Parts.checks (parts : Parts) : List Check :=
  .decode .user parts.user :: .decode .password parts.password :: .host parts.host ::
    .port parts.port :: (pieces parts.query).flatMap paramChecks

theorem makes_ofParts (url : String) (parts : Parts) :
    Makes (ofParts url parts) parts.checks := by
  rw [ofParts, rawParams_eq_pieces]
  exact makes_cons (makes_decodePart .user parts.user) fun _ =>
    makes_cons (makes_decodePart .password parts.password) fun _ =>
      makes_cons (makes_checkHost parts.host) fun _ =>
        makes_cons (makes_readPort parts.port) fun _ =>
          makes_bind_pure (makes_mapM_decodeParam (pieces parts.query)) _

/-! ### Scheme and slashes -/

/-- The scheme is checked before the slashes. -/
theorem afterSlashes_eq_error_iff {url : List Char} {fault : Fault} :
    afterSlashes url = .error fault ↔
      ¬ IsHttp (upTo ':' url) ∧ fault = .unsupportedScheme ∨
        IsHttp (upTo ':' url) ∧ ¬ ['/', '/'] <+: behind ':' url ∧ fault = .expectedSlashes := by
  rw [← cut_fst, ← getD_cut_snd, afterSlashes, ← map_toLower_eq_iff]
  cases cut ':' url with
  | mk scheme rest =>
      dsimp only
      by_cases hscheme : scheme.map Char.toLower = "http".toList
      · rw [if_pos hscheme]
        split
        · simp [hscheme]
        · next hother =>
            have hslashes : ¬ ['/', '/'] <+: rest.getD [] := by
              rintro ⟨text, htext⟩
              cases rest with
              | none => cases htext
              | some after => exact hother text (congrArg some htext.symm)
            simp [hscheme, hslashes, eq_comm]
      · rw [if_neg hscheme, and_iff_right hscheme, or_iff_left fun h => hscheme h.1,
          Except.error.injEq, eq_comm]

/-- What is wrong with a URL. -/
inductive Rejects (url : String) : Fault → Prop
  /-- What precedes the first colon is not `http`. -/
  | unsupportedScheme (scheme : ¬ IsHttp (upTo ':' url.toList)) :
      Rejects url .unsupportedScheme
  /-- No two slashes follow the colon. -/
  | expectedSlashes (scheme : IsHttp (upTo ':' url.toList))
      (slashes : ¬ ['/', '/'] <+: behind ':' url.toList) :
      Rejects url .expectedSlashes
  /-- A part of its spelling is the first one at fault. -/
  | part {spelling : Spelling} {fault : Fault} (text_eq : spelling.text = url.toList)
      (wellDivided : spelling.WellDivided) (reports : Reports spelling.parts.checks fault) :
      Rejects url fault

theorem parse_eq_error_iff {url : String} {fault : Fault} :
    parse url = .error fault ↔ Rejects url fault := by
  constructor
  · intro h
    cases hafter : afterSlashes url.toList with
    | error found =>
        have hfound : found = fault := by
          rw [parse, hafter] at h
          cases h
          rfl
        subst hfound
        rcases afterSlashes_eq_error_iff.mp hafter with ⟨hscheme, rfl⟩ | ⟨hscheme, hslashes, rfl⟩
        · exact .unsupportedScheme hscheme
        · exact .expectedSlashes hscheme hslashes
    | ok rest =>
        obtain ⟨spelling, htext, hdivided⟩ := Spelling.exists_of_afterSlashes_eq_ok hafter
        rw [Spelling.parse_eq_ofParts hdivided htext] at h
        exact .part htext hdivided ((makes_ofParts url spelling.parts fault).mp h)
  · rintro (hscheme | ⟨hscheme, hslashes⟩ | ⟨htext, hdivided, hreports⟩)
    · have hafter := afterSlashes_eq_error_iff.mpr (.inl ⟨hscheme, rfl⟩)
      rw [parse, hafter]
      rfl
    · have hafter := afterSlashes_eq_error_iff.mpr (.inr ⟨hscheme, hslashes, rfl⟩)
      rw [parse, hafter]
      rfl
    · rw [Spelling.parse_eq_ofParts hdivided htext]
      exact (makes_ofParts url _ _).mpr hreports

/-! ### What is reported of a part -/

/-- The part of the URL which a fault names. -/
def Fault.raw? : Fault → Option String
  | .unsupportedScheme => none
  | .expectedSlashes => none
  | .emptyHost => none
  | .badPort raw => some raw
  | .user raw _ => some raw
  | .password raw _ => some raw
  | .parameter raw _ => some raw
  | .value raw _ => some raw

/-- Why the part which a fault names cannot be decoded. -/
def Fault.cause? : Fault → Option Percent.Fault
  | .unsupportedScheme => none
  | .expectedSlashes => none
  | .emptyHost => none
  | .badPort _ => none
  | .user _ cause => some cause
  | .password _ cause => some cause
  | .parameter _ cause => some cause
  | .value _ cause => some cause

@[simp] theorem Encoded.raw?_fault (part : Encoded) (raw : String) (cause : Percent.Fault) :
    (part.fault raw cause).raw? = some raw := by
  cases part <;> rfl

@[simp] theorem Encoded.cause?_fault (part : Encoded) (raw : String) (cause : Percent.Fault) :
    (part.fault raw cause).cause? = some cause := by
  cases part <;> rfl

/-- A fault names the part which was checked, and why it cannot be decoded. -/
theorem Check.Fails.raw_eq {check : Check} {fault : Fault} (h : check.Fails fault)
    {raw : String} (hraw : fault.raw? = some raw) :
    raw.toList = check.raw ∧
      ∀ cause, fault.cause? = some cause → Percent.decodeText check.raw = .error cause := by
  cases h with
  | decode undecodable =>
      rw [Encoded.raw?_fault, Option.some.injEq] at hraw
      subst hraw
      refine ⟨String.toList_ofList, fun cause hcause => ?_⟩
      rw [Encoded.cause?_fault, Option.some.injEq] at hcause
      rw [← hcause]
      exact undecodable
  | host => cases hraw
  | port ne_nil unnamed =>
      rw [Fault.raw?, Option.some.injEq] at hraw
      subst hraw
      exact ⟨String.toList_ofList, fun cause hcause => nomatch hcause⟩

/-! ### Parts stand in the URL -/

theorem upTo_isInfix (delimiter : Char) (text : List Char) : upTo delimiter text <:+: text :=
  (List.takeWhile_prefix _).isInfix

theorem behind_isInfix (delimiter : Char) (text : List Char) :
    behind delimiter text <:+: text :=
  ((List.tail_suffix _).trans (List.dropWhile_suffix _)).isInfix

theorem getD_suffix (delimiter : Char) (after : Option (List Char)) :
    after.getD [] <:+ suffix delimiter after := by
  cases after with
  | none => exact List.nil_suffix
  | some text => exact List.suffix_cons _ _

namespace Spelling

variable (spelling : Spelling)

theorem afterScheme_isInfix : spelling.afterScheme <:+: spelling.text :=
  (List.suffix_append _ _).isInfix

theorem authority_isInfix : spelling.authority <:+: spelling.text :=
  (List.prefix_append _ _).isInfix.trans spelling.afterScheme_isInfix

theorem hostPort_isInfix : spelling.hostPort <:+: spelling.text := by
  refine List.IsInfix.trans ?_ spelling.authority_isInfix
  rw [authority]
  split
  · exact List.infix_rfl
  · exact ((List.suffix_cons _ _).trans (List.suffix_append _ _)).isInfix

theorem userInfo_isInfix : spelling.userInfo.getD [] <:+: spelling.text := by
  refine List.IsInfix.trans ?_ spelling.authority_isInfix
  rw [authority]
  split
  · next hnone =>
      rw [hnone]
      exact List.nil_infix
  · next userInfo hsome =>
      rw [hsome]
      exact (List.prefix_append _ _).isInfix

theorem query_isInfix : (spelling.resource.bind Resource.query).getD [] <:+: spelling.text := by
  cases hresource : spelling.resource with
  | none => exact List.nil_infix
  | some resource =>
      have hquery : resource.query.getD [] <:+: resource.text :=
        ((getD_suffix '?' _).trans (List.suffix_append _ _)).isInfix.trans
          (List.prefix_append _ _).isInfix
      have htext : resource.text <:+: spelling.afterScheme := by
        rw [afterScheme, hresource]
        exact ((List.suffix_cons _ _).trans (List.suffix_append _ _)).isInfix
      exact (hquery.trans htext).trans spelling.afterScheme_isInfix

end Spelling

/-- What is checked stands in the URL. -/
theorem raw_isInfix_of_mem_checks {spelling : Spelling} {check : Check}
    (h : check ∈ spelling.parts.checks) : check.raw <:+: spelling.text := by
  have huserInfo := spelling.userInfo_isInfix
  have hhostPort := spelling.hostPort_isInfix
  simp only [Parts.checks, List.mem_cons, List.mem_flatMap] at h
  rcases h with rfl | rfl | rfl | rfl | ⟨piece, hpiece, hcheck⟩
  · exact (upTo_isInfix _ _).trans huserInfo
  · exact (behind_isInfix _ _).trans huserInfo
  · exact (List.prefix_append _ _).isInfix.trans hhostPort
  · exact ((getD_suffix ':' _).trans (List.suffix_append _ _)).isInfix.trans hhostPort
  · have hquery : piece <:+: spelling.text :=
      (of_mem_splitOn (List.mem_of_mem_filter hpiece)).1.trans spelling.query_isInfix
    simp only [paramChecks, List.mem_cons, List.not_mem_nil, or_false] at hcheck
    rcases hcheck with rfl | rfl
    · exact (upTo_isInfix _ _).trans hquery
    · exact (behind_isInfix _ _).trans hquery

/-- Where a text cannot be decoded, a percent sign stands. -/
theorem getElem?_of_decodeText_eq_error {raw : List Char} {cause : Percent.Fault}
    (h : Percent.decodeText raw = .error cause) {position : Nat}
    (hposition : cause.position? = some position) :
    (Utf8.encode raw)[position]? = some Byte.percent := by
  rw [Percent.decodeText] at h
  split at h
  · next fault hread =>
      cases h
      obtain ⟨found, hfound, hpercent⟩ :=
        (Percent.decode_eq_error_iff.mp hread).getElem?_position
      rw [hposition, Option.some.injEq] at hfound
      rw [hfound, hpercent]
  · split at h
    · cases h
    · cases h
      cases hposition

/-- A part which is reported stands in the URL, and it cannot be decoded for the cause which
is reported. -/
theorem Rejects.raw_isInfix {url : String} {fault : Fault} (h : Rejects url fault) {raw : String}
    (hraw : fault.raw? = some raw) :
    raw.toList <:+: url.toList ∧
      ∀ cause, fault.cause? = some cause → Percent.decodeText raw.toList = .error cause := by
  cases h with
  | unsupportedScheme scheme => cases hraw
  | expectedSlashes scheme slashes => cases hraw
  | part text_eq wellDivided reports =>
      obtain ⟨earlier, check, later, hchecks, -, hfails⟩ := reports
      obtain ⟨heq, hcause⟩ := hfails.raw_eq hraw
      rw [heq, ← text_eq]
      refine ⟨raw_isInfix_of_mem_checks ?_, hcause⟩
      rw [hchecks]
      simp

/-- A URL is rejected for the first of its faults.  A part which is at fault is reported as it
stands in the URL, with the cause for which it cannot be decoded, and the position in it is
that of a percent sign. -/
theorem parse_reports_first_failure (url : String) (fault : Fault) :
    (parse url = .error fault ↔ Rejects url fault) ∧
      (parse url = .error fault → ∀ raw, fault.raw? = some raw →
        raw.toList <:+: url.toList ∧
          ∀ cause, fault.cause? = some cause →
            Percent.decodeText raw.toList = .error cause ∧
              ∀ position, cause.position? = some position →
                (Utf8.ofString raw)[position]? = some Byte.percent) := by
  refine ⟨parse_eq_error_iff, fun h raw hraw => ?_⟩
  obtain ⟨hstands, hcauses⟩ := (parse_eq_error_iff.mp h).raw_isInfix hraw
  refine ⟨hstands, fun cause hcause => ⟨hcauses cause hcause, fun position hposition => ?_⟩⟩
  exact getElem?_of_decodeText_eq_error (hcauses cause hcause) hposition

/-- The password is at fault, and so are the host, the port and both parameters behind it.
The position counts the bytes of the letter before the percent sign. -/
theorem parse_reports_first_failure_of_many :
    let url := "HTTP://u%40:é%4@:http/p?%zz=%&=%ff"
    let fault : Fault := .password "é%4" (.truncated 2)
    parse url = .error fault ∧ Rejects url fault ∧ "é%4".toList <:+: url.toList ∧
      Percent.decodeText "é%4".toList = .error (.truncated 2) ∧
      (Utf8.ofString "é%4")[2]? = some Byte.percent := by
  intro url fault
  have hread : parse url = .error fault := by decide +kernel
  obtain ⟨hiff, hparts⟩ := parse_reports_first_failure url fault
  obtain ⟨hstands, hcause⟩ := hparts hread "é%4" rfl
  obtain ⟨hdecode, hposition⟩ := hcause (.truncated 2) rfl
  exact ⟨hread, hiff.mp hread, hstands, hdecode, hposition 2 rfl⟩

end Location

end StreamingHttp
