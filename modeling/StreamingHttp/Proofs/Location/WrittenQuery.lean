import StreamingHttp.Proofs.Location.PartReading

/-!
# Reading a query which was written

A query is written as parameters with dividers between them.  Percent-encoded names and
values hold no divider, no equals sign and no mark of a fragment, so each parameter is
found again.  One which is written as nothing at all is lost: its piece is empty.
-/

namespace StreamingHttp

namespace Location

open Delimited

/-- A written parameter, which a query may hold and from which it is read back. -/
structure ReadsAs (raw : List Char) (param : String × String) : Prop where
  divider_notMem : '&' ∉ raw
  mark_notMem : '#' ∉ raw
  isParam : IsParam raw param

theorem dividers_notMem_encodeText (style : Percent.SpaceStyle) (data : Bytes) :
    '&' ∉ (Percent.encodeText style data).toList ∧
      '=' ∉ (Percent.encodeText style data).toList ∧
        '#' ∉ (Percent.encodeText style data).toList :=
  ⟨Percent.notMem_encodeText (b := 0x26) (by decide) rfl style data,
    Percent.notMem_encodeText (b := 0x3D) (by decide) rfl style data,
    Percent.notMem_encodeText (b := 0x23) (by decide) rfl style data⟩

/-- A name, an equals sign and a value. -/
theorem readsAs_pair (style : Percent.SpaceStyle) (param : String × String) :
    ReadsAs
      ((Percent.encodeText style (Utf8.ofString param.1)).toList ++
        '=' :: (Percent.encodeText style (Utf8.ofString param.2)).toList)
      param where
  divider_notMem := by
    have hname := dividers_notMem_encodeText style (Utf8.ofString param.1)
    have hvalue := dividers_notMem_encodeText style (Utf8.ofString param.2)
    simp [hname.1, hvalue.1]
  mark_notMem := by
    have hname := dividers_notMem_encodeText style (Utf8.ofString param.1)
    have hvalue := dividers_notMem_encodeText style (Utf8.ofString param.2)
    simp [hname.2.2, hvalue.2.2]
  isParam := by
    have hequals := (dividers_notMem_encodeText style (Utf8.ofString param.1)).2.1
    constructor
    · rw [upTo_append_cons hequals, Percent.decodeText_encodeText]
    · rw [behind_append_cons hequals, Percent.decodeText_encodeText]

/-- A name which stands alone has an empty value. -/
theorem readsAs_name (style : Percent.SpaceStyle) (name : String) :
    ReadsAs (Percent.encodeText style (Utf8.ofString name)).toList (name, "") where
  divider_notMem := (dividers_notMem_encodeText style _).1
  mark_notMem := (dividers_notMem_encodeText style _).2.2
  isParam := by
    have hequals := (dividers_notMem_encodeText style (Utf8.ofString name)).2.1
    constructor
    · rw [upTo_of_notMem hequals, Percent.decodeText_encodeText]
    · rw [behind_of_notMem hequals]
      exact Percent.decodeText_encodeText style ""

/-- No fragment starts in a query. -/
theorem mark_notMem_intercalate {pieces : List (List Char)}
    (h : ∀ raw ∈ pieces, '#' ∉ raw) : '#' ∉ ['&'].intercalate pieces := by
  intro hmem
  induction pieces with
  | nil => cases hmem
  | cons raw pieces ih =>
      have hraw : '#' ∉ raw := h raw List.mem_cons_self
      have hlater := ih fun other hother => h other (List.mem_cons_of_mem raw hother)
      cases pieces with
      | nil =>
          rw [List.intercalate_singleton] at hmem
          exact hraw hmem
      | cons next pieces =>
          rw [List.intercalate_cons_cons, List.mem_append, List.mem_append] at hmem
          rcases hmem with (hmem | hmem) | hmem
          · exact hraw hmem
          · exact absurd hmem (by decide)
          · exact hlater hmem

/-- The pieces which were written are found, but for those which are empty. -/
theorem pieces_intercalate {written : List (List Char)} (h : ∀ raw ∈ written, '&' ∉ raw) :
    pieces (['&'].intercalate written) = written.filter (· ≠ []) := by
  cases written with
  | nil => rfl
  | cons raw written =>
      rw [pieces, List.splitOn_intercalate '&' h (List.cons_ne_nil _ _)]

section Params

variable {text : String × String → List Char} {params : List (String × String)}

theorem mark_notMem_query (h : ∀ param ∈ params, ReadsAs (text param) param) :
    '#' ∉ ['&'].intercalate (params.map text) := by
  apply mark_notMem_intercalate
  intro raw hraw
  obtain ⟨param, hparam, rfl⟩ := List.mem_map.mp hraw
  exact (h param hparam).mark_notMem

/-- The parameters of a query in their order, but for those which are written as
nothing. -/
theorem forall₂_isParam_query (h : ∀ param ∈ params, ReadsAs (text param) param) :
    List.Forall₂ IsParam (pieces (['&'].intercalate (params.map text)))
      (params.filter fun param => text param ≠ []) := by
  have hdivider : ∀ raw ∈ params.map text, '&' ∉ raw := by
    intro raw hraw
    obtain ⟨param, hparam, rfl⟩ := List.mem_map.mp hraw
    exact (h param hparam).divider_notMem
  rw [pieces_intercalate hdivider, List.filter_map, List.forall₂_map_left_iff]
  refine List.forall₂_same.mpr fun param hparam => ?_
  exact (h param (List.mem_of_mem_filter hparam)).isParam

end Params

end Location

end StreamingHttp
