import StreamingHttp.Entity.Block
import StreamingHttp.Proofs.Delimited
import StreamingHttp.Proofs.Lines
import StreamingHttp.Proofs.Trim

/-!
# Fields without line feeds

What is read as a line may be a piece of a longer one, and it may come in several reads, but
it holds no line feed before its last byte: collecting stops behind the first one.  Without
the white space at its end it holds none at all, and the fields are joined from parts of such
texts.  So whatever reader a header block is read from, and however long its lines may be,
the fields hold no line feed.
-/

namespace StreamingHttp

open Transport

namespace Transport.Reader

variable {reader after : Reader} {line : Bytes}

/-- Collecting stops behind the first line feed. -/
theorem notMem_dropLast_collectLine (limit : Nat) (reader : Reader) :
    Byte.lf ∉ (reader.collectLine limit).line.dropLast := by
  fun_induction collectLine limit reader with
  | case1 => exact List.not_mem_nil
  | case2 limit reader _ failure middle _ _ ih => exact ih
  | case3 => exact List.not_mem_nil
  | case4 limit reader _ middle _ line _ hsplit =>
      obtain ⟨body, hbody, rfl⟩ := Bytes.isLine_of_splitLine? hsplit
      rwa [List.dropLast_concat]
  | case5 => exact List.not_mem_nil
  | case6 limit reader _ middle _ hsplit _ more ih =>
      -- No line feed is buffered, so only the bytes read after them may end with one.
      have hclean := Bytes.notMem_of_splitLine? hsplit
      by_cases hmore : more.line = []
      · rw [hmore, List.append_nil]
        exact fun hmem => hclean ((List.dropLast_sublist _).mem hmem)
      · rw [List.dropLast_append_of_ne_nil hmore, List.mem_append, not_or]
        exact ⟨hclean, ih⟩

theorem notMem_dropLast_of_line_eq_ok {maxLine : Nat}
    (h : reader.line maxLine = .ok line after) : Byte.lf ∉ line.dropLast := by
  rw [Reader.line] at h
  split at h
  · next last hresult =>
      cases h
      rw [readLine, (LineRead.result_of_checked_ok hresult).2.2]
      exact notMem_dropLast_collectLine _ _
  · cases h

end Transport.Reader

/-- Without white space at its end, a byte string with no line feed before its last byte
has none. -/
theorem Bytes.notMem_trimEnd_isSpace {line : Bytes} (h : Byte.lf ∉ line.dropLast) :
    Byte.lf ∉ trimEnd Byte.isSpace line := by
  rcases List.eq_nil_or_concat' line with rfl | ⟨front, last, rfl⟩
  · exact List.not_mem_nil
  · rw [List.dropLast_concat] at h
    by_cases hlast : last = Byte.lf
    · rw [hlast, trimEnd_append_of_forall (by simp [Byte.isSpace, Byte.isLineEnd])]
      exact fun hmem => h (mem_of_mem_trimEnd hmem)
    · intro hmem
      rcases List.mem_append.mp (mem_of_mem_trimEnd hmem) with hfront | hback
      · exact h hfront
      · exact hlast (List.mem_singleton.mp hback).symm

namespace EntityFields

/-- Both values hold no line feed. -/
structure IsClean (fields : EntityFields) : Prop where
  contentType : Byte.lf ∉ fields.contentType
  contentLength : Byte.lf ∉ fields.contentLength

theorem isClean_empty : IsClean {} :=
  ⟨List.not_mem_nil, List.not_mem_nil⟩

theorem IsClean.append {fields : EntityFields} (h : fields.IsClean) (field : EntityField)
    {value : Bytes} (hvalue : Byte.lf ∉ value) : (fields.append field value).IsClean := by
  cases field with
  | contentType => exact ⟨fun hmem => (List.mem_append.mp hmem).elim h.1 hvalue, h.2⟩
  | contentLength => exact ⟨h.1, fun hmem => (List.mem_append.mp hmem).elim h.2 hvalue⟩

end EntityFields

namespace EntityBlock

variable {block : EntityBlock} {text : Bytes}

theorem isClean_addText (h : block.fields.IsClean) (htext : Byte.lf ∉ text) :
    (block.addText text).fields.IsClean := by
  unfold addText
  split
  · exact h
  · next field _ =>
      exact h.append field fun hmem => htext ((List.dropWhile_sublist _).mem hmem)

/-- What is appended is a part of the line. -/
theorem isClean_addLine (h : block.fields.IsClean) (htext : Byte.lf ∉ text) :
    (block.addLine text).fields.IsClean := by
  unfold addLine
  split
  · exact isClean_addText h htext
  · obtain ⟨name, value, rfl, hname⟩ := Delimited.exists_cut Byte.colon text
    rw [Delimited.cut_append_suffix hname]
    refine isClean_addText (by exact h) fun hmem => htext (List.mem_append_right _ ?_)
    cases value with
    | none => cases hmem
    | some value => exact List.mem_cons_of_mem _ hmem

/-- From the first line to the end of the block. -/
theorem isClean_of_readFrom_eq_ok {maxLine : Nat} {reader after : Reader}
    {fields : EntityFields} (h : block.fields.IsClean)
    (hread : block.readFrom maxLine reader = .ok fields after) : fields.IsClean := by
  fun_induction readFrom maxLine block reader with
  | case1 => cases hread
  | case2 =>
      cases hread
      exact h
  | case3 block reader line middle hline _ ih =>
      have hclean := Reader.notMem_dropLast_of_line_eq_ok hline
      exact ih (isClean_addLine h (Bytes.notMem_trimEnd_isSpace hclean)) hread

end EntityBlock

/-- The fields of a header block, read from any reader. -/
theorem EntityFields.isClean_of_read_eq_ok {maxLine : Nat} {reader after : Reader}
    {fields : EntityFields} (h : read maxLine reader = .ok fields after) : fields.IsClean :=
  EntityBlock.isClean_of_readFrom_eq_ok isClean_empty h

end StreamingHttp
