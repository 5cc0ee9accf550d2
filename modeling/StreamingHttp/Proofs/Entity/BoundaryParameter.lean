import StreamingHttp.Entity.Basic
import StreamingHttp.Proofs.Delimited
import StreamingHttp.Proofs.Trim
import Mathlib.Data.List.Infix

/-!
# The boundary parameter

The boundary which a media type states is cut out of its value: one of the pieces between
the semicolons, of this what follows the first equals sign, and of this what is left without
white space and quotes.  So it stands in the value as it is, and it holds no byte which the
value does not hold.
-/

namespace StreamingHttp

namespace MediaType

variable {value parameter boundary : Bytes}

/-- Without its quotes a value stands in what it was. -/
theorem unquote_isInfix (value : Bytes) : unquote value <:+: value := by
  unfold unquote
  split
  · next first rest =>
      split
      · exact (List.dropLast_prefix rest).isInfix.trans (List.suffix_cons first rest).isInfix
      · exact List.infix_rfl
  · exact List.infix_rfl

theorem isInfix_of_boundaryValue? (h : boundaryValue? parameter = some boundary) :
    boundary <:+: parameter := by
  unfold boundaryValue? at h
  split at h
  · next name value hcut =>
      split at h
      · cases h
        have hbehind : value <:+: Bytes.trim Byte.isSpace parameter := by
          rw [(Delimited.eq_of_cut_eq_some hcut).1]
          exact ((List.suffix_cons _ _).trans (List.suffix_append _ _)).isInfix
        calc unquote (Bytes.trim Byte.isSpace value)
          _ <:+: Bytes.trim Byte.isSpace value := unquote_isInfix _
          _ <:+: value := Bytes.trim_isInfix value
          _ <:+: Bytes.trim Byte.isSpace parameter := hbehind
          _ <:+: parameter := Bytes.trim_isInfix parameter
      · cases h
  · cases h

/-- The boundary of a media type stands in its value, and in one of its parameters. -/
theorem of_boundary?_eq_some (h : boundary? value = some boundary) :
    boundary <:+: value ∧ Byte.semicolon ∉ boundary := by
  unfold boundary? at h
  split at h
  · next name parameters hsplit =>
      split at h
      · obtain ⟨parameter, hparameter, hboundary⟩ := List.exists_of_findSome?_eq_some h
        have hpiece : parameter ∈ value.splitOn Byte.semicolon := by
          rw [hsplit]
          exact List.mem_cons_of_mem _ hparameter
        obtain ⟨hstands, hclean⟩ := Delimited.of_mem_splitOn hpiece
        have hinside := isInfix_of_boundaryValue? hboundary
        exact ⟨hinside.trans hstands, fun hmem => hclean (hinside.mem hmem)⟩
      · cases h
  · cases h

end MediaType

end StreamingHttp
