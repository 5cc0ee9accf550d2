import StreamingHttp.Proofs.Entity.BoundaryParameter

/-!
# Boundaries as they are written

A media type in parts is written with its name, then with parameters, each behind a
semicolon.  The first parameter which is named `boundary` states the boundary, between quotes
or without them.  White space may stand around the name of the media type, the name of the
parameter and its value, and letters may be small or capital.

`WrittenBoundary` is such a text.  It is read to the boundary which was written, whatever the
boundary holds but semicolons, and nothing else is read to a boundary.  A boundary which is
written without quotes neither starts nor ends with white space and is not enclosed in quotes
itself, because both would be removed.

The reader trims a parameter before it looks for the equals sign, and both sides of it again.
What is left of each is the same as if the parts were trimmed where they were written, because
neither a name nor the equals sign is white space.
-/

namespace StreamingHttp

namespace MediaType

/-! ### Names -/

/-- The two words which are looked for hold no capitals. -/
theorem isUpper_of_mem_words {word : Bytes} (hword : word ∈ [multipartMark, boundaryName]) :
    ∀ small ∈ word, Byte.isUpper small = false := by
  have hall : ∀ word ∈ [multipartMark, boundaryName],
      word.all (fun small => Byte.isUpper small == false) = true := by decide +kernel
  intro small hsmall
  simpa using List.all_eq_true.mp (hall word hword) small hsmall

theorem isSpace_of_mem_spelled {word spelled : Bytes}
    (hword : word ∈ [multipartMark, boundaryName]) (h : spelled.Spells word) :
    ∀ b ∈ spelled, Byte.isSpace b = false := by
  intro b hb
  rw [Byte.isSpace_eq_false_iff]
  intro hspace
  have hall : ∀ word ∈ [multipartMark, boundaryName], ∀ b ∈ Byte.whiteSpace,
      Byte.toLower b ∉ word := by decide +kernel
  exact h.notMem (isUpper_of_mem_words hword) (hall word hword b hspace) hb

/-- The name of a media type in parts, with white space before it. -/
def IsMultipart (name : Bytes) : Prop :=
  ∃ before mark rest, name = before ++ (mark ++ rest) ∧ before.IsWhite ∧
    mark.Spells multipartMark

/-- What is before the first equals sign names the boundary. -/
def NamesBoundary (parameter : Bytes) : Prop :=
  ∃ before name after value, parameter = before ++ (name ++ (after ++ Byte.equals :: value)) ∧
    before.IsWhite ∧ name.Spells boundaryName ∧ after.IsWhite

theorem isMultipart_trim_iff {name : Bytes} :
    isMultipart (Bytes.trim Byte.isSpace name) = true ↔ IsMultipart name := by
  have hlower := @isUpper_of_mem_words multipartMark (by simp)
  rw [isMultipart, Bytes.sameIgnoringCase_iff hlower]
  constructor
  · intro h
    obtain ⟨before, after, hname, hbefore, -⟩ := Bytes.exists_between Byte.isSpace name
    refine ⟨before, _, (Bytes.trim Byte.isSpace name).drop multipartMark.length ++ after, ?_,
      Bytes.isWhite_iff.mpr hbefore, h⟩
    rw [← List.append_assoc (List.take _ _), List.take_append_drop]
    exact hname
  · rintro ⟨before, mark, rest, rfl, hbefore, hmark⟩
    have hne : mark ≠ [] := by
      rintro rfl
      cases hmark
    have hspace := isSpace_of_mem_spelled (by simp) hmark
    rw [Bytes.trim_append_of_forall (Bytes.isWhite_iff.mp hbefore),
      Bytes.trim_append_of_forall_not hspace hne, List.take_left' hmark.length_eq]
    exact hmark

theorem boundaryValue?_of_names {before name after : Bytes} (hbefore : before.IsWhite)
    (hname : name.Spells boundaryName) (hafter : after.IsWhite) (value : Bytes) :
    boundaryValue? (before ++ (name ++ (after ++ Byte.equals :: value))) =
      some (unquote (Bytes.trim Byte.isSpace value)) := by
  have hlower := @isUpper_of_mem_words boundaryName (by simp)
  have hspace := isSpace_of_mem_spelled (by simp) hname
  have hne : name ≠ [] := by
    rintro rfl
    cases hname
  have hequals : Byte.isSpace Byte.equals = false := by decide
  have hmark : Byte.equals ∉ name ++ after := by
    rw [List.mem_append, not_or]
    exact ⟨hname.notMem hlower (by decide +kernel), fun hmem => absurd (hafter _ hmem) (by decide)⟩
  have htrim : Bytes.trim Byte.isSpace (before ++ (name ++ (after ++ Byte.equals :: value))) =
      (name ++ after) ++ Byte.equals :: Bytes.trimEnd Byte.isSpace value := by
    rw [Bytes.trim_append_of_forall (Bytes.isWhite_iff.mp hbefore),
      Bytes.trim_append_of_forall_not hspace hne, Bytes.trimEnd_append_cons hequals,
      List.append_assoc]
  have hnamed : Bytes.trim Byte.isSpace (name ++ after) = name := by
    rw [Bytes.trim_append_of_forall_not hspace hne,
      Bytes.trimEnd_eq_nil_iff.mpr (Bytes.isWhite_iff.mp hafter), List.append_nil]
  rw [boundaryValue?, htrim, Delimited.cut_append_cons hmark]
  dsimp only
  rw [hnamed, if_pos ((Bytes.sameIgnoringCase_iff hlower).mpr hname), Bytes.trim_trimEnd]

theorem namesBoundary_of_boundaryValue? {parameter boundary : Bytes}
    (h : boundaryValue? parameter = some boundary) : NamesBoundary parameter := by
  have hlower := @isUpper_of_mem_words boundaryName (by simp)
  unfold boundaryValue? at h
  split at h
  · next named value hcut =>
      split at h
      · next hname =>
          obtain ⟨before, behind, hparameter, hbefore, -⟩ :=
            Bytes.exists_between Byte.isSpace parameter
          obtain ⟨indent, after, hnamed, hindent, hafter⟩ :=
            Bytes.exists_between Byte.isSpace named
          refine ⟨before ++ indent, Bytes.trim Byte.isSpace named, after, value ++ behind, ?_, ?_,
            (Bytes.sameIgnoringCase_iff hlower).mp hname, Bytes.isWhite_iff.mpr hafter⟩
          · rw [(Delimited.eq_of_cut_eq_some hcut).1] at hparameter
            rw [hparameter]
            conv_lhs => rw [hnamed]
            simp
          · exact List.forall_mem_append.mpr ⟨Bytes.isWhite_iff.mpr hbefore,
              Bytes.isWhite_iff.mpr hindent⟩
      · cases h
  · cases h

/-- A parameter is passed over if and only if it does not name the boundary. -/
theorem boundaryValue?_eq_none_iff {parameter : Bytes} :
    boundaryValue? parameter = none ↔ ¬ NamesBoundary parameter := by
  constructor
  · rintro h ⟨before, name, after, value, rfl, hbefore, hname, hafter⟩
    rw [boundaryValue?_of_names hbefore hname hafter] at h
    cases h
  · intro h
    rw [Option.eq_none_iff_forall_ne_some]
    exact fun boundary hboundary => h (namesBoundary_of_boundaryValue? hboundary)

/-! ### Values -/

/-- A value between quotes. -/
def quotedText (value : Bytes) : Bytes :=
  Byte.quote :: (value ++ [Byte.quote])

/-- How a boundary is written: between quotes, or as it is if neither its ends nor its quotes
would be removed. -/
def Writes (written boundary : Bytes) : Prop :=
  written = quotedText boundary ∨
    written = boundary ∧ ((∀ b ∈ boundary.head?, b ∉ Byte.whiteSpace) ∧
      ∀ b ∈ boundary.getLast?, b ∉ Byte.whiteSpace) ∧ ∀ inner, boundary ≠ quotedText inner

theorem unquote_quotedText (value : Bytes) : unquote (quotedText value) = value := by
  simp [unquote, quotedText]

theorem unquote_eq_self {value : Bytes} (h : ∀ inner, value ≠ quotedText inner) :
    unquote value = value := by
  unfold unquote
  split
  · next first rest =>
      split
      · next hquotes =>
          obtain ⟨rfl, hlast⟩ := hquotes
          obtain ⟨inner, rfl⟩ := List.getLast?_eq_some_iff.mp hlast
          exact absurd rfl (h inner)
      · rfl
  · rfl

/-- A value is what the boundary is written as which it is read to. -/
theorem writes_unquote_trim (value : Bytes) :
    Writes (Bytes.trim Byte.isSpace value) (unquote (Bytes.trim Byte.isSpace value)) := by
  by_cases hquoted : ∃ inner, Bytes.trim Byte.isSpace value = quotedText inner
  · obtain ⟨inner, hinner⟩ := hquoted
    rw [hinner, unquote_quotedText]
    exact .inl rfl
  · rw [not_exists] at hquoted
    rw [unquote_eq_self hquoted]
    exact .inr ⟨rfl,
      ⟨fun b hb => Byte.isSpace_eq_false_iff.mp (Bytes.eq_false_of_mem_head?_trim b hb),
        fun b hb => Byte.isSpace_eq_false_iff.mp (Bytes.eq_false_of_mem_getLast?_trim b hb)⟩,
      hquoted⟩

/-- A boundary is read from what is written for it. -/
theorem Writes.unquote_trim {written boundary : Bytes} (h : Writes written boundary) :
    unquote (Bytes.trim Byte.isSpace written) = boundary := by
  rcases h with rfl | ⟨rfl, ⟨hhead, hlast⟩, hquoted⟩
  · have hquote : Byte.isSpace Byte.quote = false := by decide
    rw [Bytes.trim_eq_self, unquote_quotedText]
    · intro b hb
      cases hb
      exact hquote
    · intro b hb
      rw [quotedText, ← List.cons_append, List.getLast?_concat] at hb
      cases hb
      exact hquote
  · rw [Bytes.trim_eq_self (fun b hb => Byte.isSpace_eq_false_iff.mpr (hhead b hb))
      fun b hb => Byte.isSpace_eq_false_iff.mpr (hlast b hb), unquote_eq_self hquoted]

/-! ### Parameters -/

/-- A media type in parts with a boundary, as it is written.  White space may stand around the
name of the parameter, its value and the name of the media type. -/
structure WrittenBoundary where
  mediaType : Bytes
  /-- The parameters before the one which is named `boundary`. -/
  earlier : List Bytes
  beforeName : Bytes
  name : Bytes
  afterName : Bytes
  beforeValue : Bytes
  written : Bytes
  afterValue : Bytes
  /-- What is behind the next semicolon, if there is one. -/
  later : Option Bytes
  boundary : Bytes
  isMultipart : IsMultipart mediaType
  mediaType_clean : Byte.semicolon ∉ mediaType
  earlier_clean : ∀ parameter ∈ earlier, Byte.semicolon ∉ parameter
  earlier_other : ∀ parameter ∈ earlier, ¬ NamesBoundary parameter
  name_spells : name.Spells boundaryName
  beforeName_white : beforeName.IsWhite
  afterName_white : afterName.IsWhite
  beforeValue_white : beforeValue.IsWhite
  afterValue_white : afterValue.IsWhite
  writes : Writes written boundary
  boundary_clean : Byte.semicolon ∉ boundary

namespace WrittenBoundary

variable (stated : WrittenBoundary)

/-- The parameter which states the boundary. -/
def parameter : Bytes :=
  stated.beforeName ++ (stated.name ++ (stated.afterName ++ Byte.equals ::
    (stated.beforeValue ++ (stated.written ++ stated.afterValue))))

/-- The whole value. -/
def text : Bytes :=
  stated.mediaType ++ (stated.earlier.flatMap (Byte.semicolon :: ·) ++
    Byte.semicolon :: (stated.parameter ++ Delimited.suffix Byte.semicolon stated.later))

theorem boundaryValue?_parameter : boundaryValue? stated.parameter = some stated.boundary := by
  rw [parameter, boundaryValue?_of_names stated.beforeName_white stated.name_spells
    stated.afterName_white, Bytes.trim_between (Bytes.isWhite_iff.mp stated.beforeValue_white)
    (Bytes.isWhite_iff.mp stated.afterValue_white), stated.writes.unquote_trim]

theorem semicolon_notMem_parameter : Byte.semicolon ∉ stated.parameter := by
  have hwhite {bytes : Bytes} (h : bytes.IsWhite) : Byte.semicolon ∉ bytes :=
    fun hmem => absurd (h _ hmem) (by decide)
  have hname : Byte.semicolon ∉ stated.name :=
    stated.name_spells.notMem (isUpper_of_mem_words (by simp)) (by decide +kernel)
  have hwritten : Byte.semicolon ∉ stated.written := by
    rcases stated.writes with hquoted | ⟨hplain, -⟩
    · have hquote : Byte.semicolon ≠ Byte.quote := by decide
      simp [hquoted, quotedText, stated.boundary_clean, hquote]
    · rw [hplain]
      exact stated.boundary_clean
  have hequals : Byte.semicolon ≠ Byte.equals := by decide
  simp [parameter, hwhite stated.beforeName_white, hname, hwhite stated.afterName_white, hequals,
    hwhite stated.beforeValue_white, hwritten, hwhite stated.afterValue_white]

/-- The parameters before pass nothing on, and what is behind does not count. -/
theorem boundary?_text : boundary? stated.text = some stated.boundary := by
  have hearlier : stated.earlier.findSome? boundaryValue? = none :=
    List.findSome?_eq_none_iff.mpr fun parameter hparameter =>
      boundaryValue?_eq_none_iff.mpr (stated.earlier_other parameter hparameter)
  rw [boundary?, text, Delimited.splitOn_append_pieces stated.mediaType_clean
    stated.earlier_clean, Delimited.splitOn_append_suffix stated.semicolon_notMem_parameter]
  dsimp only
  rw [if_pos (isMultipart_trim_iff.mpr stated.isMultipart), List.findSome?_append, hearlier,
    Option.none_or, List.findSome?_cons, stated.boundaryValue?_parameter]

end WrittenBoundary

/-- Nothing else states a boundary. -/
theorem exists_writtenBoundary {value boundary : Bytes} (h : boundary? value = some boundary) :
    ∃ stated : WrittenBoundary, stated.text = value ∧ stated.boundary = boundary := by
  have hclean := (of_boundary?_eq_some h).2
  unfold boundary? at h
  split at h
  case h_2 => cases h
  next mediaType parameters hsplit =>
  split at h
  case isFalse => cases h
  next hmultipart =>
  obtain ⟨earlier, parameter, more, rfl, hparameter, hearlier⟩ :=
    List.findSome?_eq_some_iff.mp h
  have hpiece : ∀ piece ∈ mediaType :: (earlier ++ parameter :: more), Byte.semicolon ∉ piece :=
    fun piece hpiece => (Delimited.of_mem_splitOn (hsplit ▸ hpiece)).2
  obtain ⟨beforeName, name, afterName, rest, rfl, hbefore, hname, hafter⟩ :=
    namesBoundary_of_boundaryValue? hparameter
  rw [boundaryValue?_of_names hbefore hname hafter, Option.some.injEq] at hparameter
  obtain ⟨beforeValue, afterValue, hrest, hbeforeValue, hafterValue⟩ :=
    Bytes.exists_between Byte.isSpace rest
  obtain ⟨later, hlater⟩ := Delimited.exists_suffix_eq_flatMap Byte.semicolon more
  let stated : WrittenBoundary :=
    { mediaType, earlier, beforeName, name, afterName, beforeValue, afterValue, later, boundary
      written := Bytes.trim Byte.isSpace rest
      isMultipart := isMultipart_trim_iff.mp hmultipart
      mediaType_clean := hpiece mediaType (by simp)
      earlier_clean := fun piece hmem => hpiece piece (by simp [hmem])
      earlier_other := fun piece hmem => boundaryValue?_eq_none_iff.mp (hearlier piece hmem)
      name_spells := hname
      beforeName_white := hbefore
      afterName_white := hafter
      beforeValue_white := Bytes.isWhite_iff.mpr hbeforeValue
      afterValue_white := Bytes.isWhite_iff.mpr hafterValue
      writes := hparameter ▸ writes_unquote_trim rest
      boundary_clean := hclean }
  refine ⟨stated, ?_, rfl⟩
  rw [Delimited.eq_append_of_splitOn_eq_cons hsplit, List.flatMap_append, List.flatMap_cons,
    hlater, WrittenBoundary.text, WrittenBoundary.parameter]
  conv_rhs => rw [hrest]
  rfl

/-- The boundary is read of a media type in parts if it was written in the first parameter
which is named so, with or without quotes.  It is the one which was written, and it stands in
the value.  There is none if the media type is not one in parts, or no parameter is named
so. -/
theorem boundary?_is_written_parameter (value : Bytes) :
    (∀ boundary, boundary? value = some boundary ↔
      ∃ stated : WrittenBoundary, stated.text = value ∧ stated.boundary = boundary) ∧
      (boundary? value = none ↔
        ¬ (IsMultipart (Delimited.upTo Byte.semicolon value) ∧
          ∃ parameter ∈ (value.splitOn Byte.semicolon).tail, NamesBoundary parameter)) ∧
      ∀ boundary, boundary? value = some boundary →
        boundary <:+: value ∧ Byte.semicolon ∉ boundary := by
  refine ⟨fun boundary => ⟨exists_writtenBoundary, ?_⟩, ?_, fun boundary => of_boundary?_eq_some⟩
  · rintro ⟨stated, rfl, rfl⟩
    exact stated.boundary?_text
  · rw [boundary?, ← Delimited.cut_fst, ← isMultipart_trim_iff, Delimited.splitOn_eq_cut]
    dsimp only [List.tail_cons]
    split
    · next hmultipart =>
        simp [hmultipart, List.findSome?_eq_none_iff, boundaryValue?_eq_none_iff]
    · next hother => simp [hother]

/-- A boundary which holds a quote, an equals sign and white space at its ends.  Parameters
without a name, of another name and without a value are before it, and another boundary is
behind it. -/
theorem boundary?_is_written_parameter_between_quotes :
    let boundary := Utf8.ofString " a\"=b "
    let value := Utf8.ofString
      "\tMultiPart/x ;a;=;boundary ; BOUNDary\t= \" a\"=b \"\r\n; boundary=c"
    boundary? value = some boundary ∧
      (∃ stated : WrittenBoundary, stated.text = value ∧ stated.boundary = boundary) ∧
      boundary <:+: value ∧ Byte.semicolon ∉ boundary := by
  intro boundary value
  have hread : boundary? value = some boundary := by decide +kernel
  obtain ⟨hsome, -, hstands⟩ := boundary?_is_written_parameter value
  exact ⟨hread, (hsome boundary).mp hread, hstands boundary hread⟩

end MediaType

end StreamingHttp
