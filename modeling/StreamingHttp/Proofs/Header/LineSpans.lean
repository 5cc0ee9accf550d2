import StreamingHttp.Proofs.Header.LineReading

/-!
# Where the spans of a line lie

A line is read behind a block of any bytes.  `Line.Cuts` lists what may be read in it, and
where the spans lie then: behind the block, in the order of the line, with a colon at least
between a name and its value.  Nothing is asked of the bytes of the line but that its line
feed is the last one, so carriage returns may stand anywhere in it.

`IsFieldName` is what a line must start with to be a field.
-/

namespace StreamingHttp

namespace Header

/-! ### Spans -/

/-- A span within the first bytes marks out the same, whatever follows them. -/
theorem Span.slice_append {span : Span} {block : Bytes} (h : span.stop ≤ block.length)
    (line : Bytes) : span.slice (block ++ line) = span.slice block := by
  rw [Span.slice, Span.slice, ← List.drop_take, ← List.drop_take,
    List.take_append_of_le_length h]

namespace Span.Marks

variable {span : Span} {block text after : Bytes}

theorem start_le (h : span.Marks block text after) : span.start ≤ span.stop := by
  obtain ⟨before, -, rfl⟩ := h
  exact Nat.le_add_right _ _

theorem stop_le (h : span.Marks block text after) : span.stop ≤ block.length := by
  obtain ⟨before, rfl, rfl⟩ := h
  simp

end Span.Marks

/-! ### Names -/

/-- What the name of a field consists of. -/
structure IsFieldName (name : Bytes) : Prop where
  ne_nil : name ≠ []
  colon_notMem : Byte.colon ∉ name
  lf_notMem : Byte.lf ∉ name
  head_not_blank : ∀ b ∈ name.head?, Byte.isBlank b = false
  last_not_blank : ∀ b ∈ name.getLast?, Byte.isBlank b = false

/-- A line which is no continuation and has a field starts with its name. -/
theorem isFieldName_of_readField_eq_ok {line : Bytes} (hline : Bytes.IsLine line)
    (hkind : isContinuation (content line) = false) {name value : Bytes}
    (hfield : readField (content line) = .ok (name, value)) : IsFieldName name := by
  obtain ⟨front, last, raw, hname, hlast, hcolon, htext, -, -⟩ :=
    text_of_readField_eq_ok hfield
  have hne : name ≠ [] := by
    rw [hname]
    simp
  have htrimmed : Bytes.trimEnd Byte.isBlank (content line) ≠ [] := by
    rw [htext]
    simp
  refine ⟨hne, hcolon, fun hlf => ?_, fun b hb => ?_, fun b hb => ?_⟩
  · apply notMem_content_lf hline
    apply Bytes.mem_of_mem_trimEnd (p := Byte.isBlank)
    rw [htext]
    exact List.mem_append_left _ hlf
  · -- The line starts with its name.
    have hhead := Bytes.head?_trimEnd htrimmed
    rw [htext, List.head?_append_of_ne_nil _ hne, Option.mem_def.mp hb] at hhead
    rw [isContinuation, ← hhead] at hkind
    exact hkind
  · rw [hname, List.getLast?_concat, Option.mem_some_iff] at hb
    rwa [← hb]

/-! ### Lines -/

/-- What may be read in a line behind a block. -/
inductive Line.Cuts (expectStart : Bool) (block line : Bytes) : Line → Prop
  | blank (hempty : content line = []) : Cuts expectStart block line .blank
  | start {span : Span} {text after : Bytes} (hexpect : expectStart = true)
      (hmarks : span.Marks (block ++ line) text after) :
      Cuts expectStart block line (.start span)
  | continuation {span : Span} {after : Bytes} (hexpect : expectStart = false)
      (hkind : isContinuation (content line) = true) (hbehind : block.length ≤ span.start)
      (hmarks : span.Marks (block ++ line) (Bytes.trim Byte.isBlank (content line)) after) :
      Cuts expectStart block line (.continuation span)
  | field {nameSpan valueSpan : Span} {name value behindName behindValue : Bytes}
      (hexpect : expectStart = false) (hkind : isContinuation (content line) = false)
      (hname : IsFieldName name) (hvalue : Byte.lf ∉ value)
      (hstart : nameSpan.start = block.length) (hcolon : nameSpan.stop < valueSpan.start)
      (hnameMarks : nameSpan.Marks (block ++ line) name behindName)
      (hvalueMarks : valueSpan.Marks (block ++ line) value behindValue) :
      Cuts expectStart block line (.field nameSpan valueSpan)
  | malformed {kind : FaultKind} (hexpect : expectStart = false)
      (hkind : isContinuation (content line) = false) :
      Cuts expectStart block line (.malformed kind)

/-- Every line is read in one of these ways. -/
theorem Line.cuts_read {line : Bytes} (hline : Bytes.IsLine line) (expectStart : Bool)
    (block : Bytes) :
    Line.Cuts expectStart block line (Line.read expectStart block.length line) := by
  by_cases hempty : content line = []
  · rw [read_of_content_eq_nil hline hempty]
    exact .blank hempty
  cases expectStart with
  | true =>
      obtain ⟨span, after, hread, hmarks⟩ := read_start hline hempty block
      rw [hread]
      exact .start rfl hmarks
  | false =>
      cases hkind : isContinuation (content line) with
      | true =>
          obtain ⟨indent, gap, hcut, -, -, hread⟩ :=
            read_continuation hline hkind block.length
          have hmarks : Span.Marks
              ⟨block.length + indent.length, block.length + indent.length
                + (Bytes.trim Byte.isBlank (content line)).length⟩
              (block ++ line) (Bytes.trim Byte.isBlank (content line)) gap := by
            refine ⟨block ++ indent, ?_, by rw [List.length_append]⟩
            conv_lhs => rw [hcut]
            simp only [List.append_assoc]
          rw [hread]
          exact .continuation rfl hkind (Nat.le_add_right _ _) hmarks
      | false =>
          cases hfield : readField (content line) with
          | error kind =>
              rw [read_malformed hline hempty hkind hfield]
              exact .malformed rfl hkind
          | ok header =>
              obtain ⟨name, value⟩ := header
              obtain ⟨indent, gap, hcut, -, hread⟩ :=
                read_field hline hkind hfield block.length
              have hlf : Byte.lf ∉ value := by
                obtain ⟨-, -, raw, -, -, -, htext, rfl, -⟩ := text_of_readField_eq_ok hfield
                intro hmem
                apply notMem_content_lf hline
                apply Bytes.mem_of_mem_trimEnd (p := Byte.isBlank)
                rw [htext]
                exact List.mem_append_right _
                  (List.mem_cons_of_mem _ (Bytes.mem_of_mem_trim hmem))
              have hnameMarks : Span.Marks ⟨block.length, block.length + name.length⟩
                  (block ++ line) name ((Byte.colon :: indent) ++ value ++ gap) := by
                refine ⟨block, ?_, rfl⟩
                rw [hcut]
                simp only [List.append_assoc]
              have hvalueMarks : Span.Marks
                  ⟨block.length + name.length + (Byte.colon :: indent).length,
                    block.length + name.length + (Byte.colon :: indent).length
                      + value.length⟩ (block ++ line) value gap := by
                refine ⟨block ++ name ++ (Byte.colon :: indent), ?_, ?_⟩
                · rw [hcut]
                  simp only [List.append_assoc]
                · simp only [List.length_append]
              rw [hread]
              exact .field rfl hkind (isFieldName_of_readField_eq_ok hline hkind hfield) hlf
                rfl (Nat.lt_add_of_pos_right (Nat.succ_pos _)) hnameMarks hvalueMarks

end Header

end StreamingHttp
