import StreamingHttp.Proofs.Entity.FieldHead
import StreamingHttp.Proofs.Part.ChunkIndependence
import StreamingHttp.Proofs.Part.Walk

/-!
# The parts which the incremental reader finds

A multipart body is written with header blocks field by field.  The reader is fed it,
and one line feed before it, and gives back what the header blocks say:

* the scanner stops behind the next delimiter line, because what it skips ends with a
  line feed and holds no delimiter;
* the parser stops behind the header block, and has found no fault in it;
* both start again at the content, which is what is skipped next.

The line of the closing delimiter may lack its line end.  Whether or not it has one,
nothing follows which could make a part.
-/

namespace StreamingHttp

open Header

/-- A part whose header block is written field by field. -/
structure FieldPart (limit : Nat) (boundary : Bytes) extends
    WrittenPart limit boundary where
  fieldHead : FieldHead limit
  head_eq : head = fieldHead.toHead

/-- A body of such parts, and the line end behind the closing delimiter if there is
one. -/
def fieldBody {limit : Nat} (boundary : Bytes) (parts : List (FieldPart limit boundary))
    (ending : Option LineEnd) : Bytes :=
  writtenBody boundary (parts.map FieldPart.toWrittenPart) ++
    (ending.map LineEnd.bytes).getD []

theorem fieldBody_cons {limit : Nat} {boundary : Bytes} (part : FieldPart limit boundary)
    (later : List (FieldPart limit boundary)) (ending : Option LineEnd) :
    fieldBody boundary (part :: later) ending =
      part.front ++ (part.content ++ part.contentEnd.bytes ++
        fieldBody boundary later ending) := by
  rw [fieldBody, List.map_cons, writtenBody_cons, fieldBody]
  simp only [List.append_assoc]

/-- What the header block of a part says. -/
def FieldHead.summary {limit : Nat} (head : FieldHead limit) : Part.Summary where
  faults := []
  contentType := head.value? .contentType
  contentLength := (head.value? .contentLength).bind contentLength?
  fieldCount := head.lines.length

/-! ### Delimiter lines -/

section Delimiter

variable {boundary front padding : Bytes}

theorem lf_notMem_of_isLineEnd (hboundary : ∀ b ∈ boundary, Byte.isLineEnd b = false) :
    Byte.lf ∉ boundary := by
  intro hmem
  have hend := hboundary Byte.lf hmem
  cases hend

theorem lf_notMem_delimiter (hboundary : Byte.lf ∉ boundary) :
    Byte.lf ∉ Boundary.delimiter boundary := by
  simp [Boundary.delimiter, hboundary, Byte.lf, Byte.dash]

/-- A line feed at the start of a body comes before the first delimiter. -/
theorem noDelimiterBefore_lf (hboundary : Byte.lf ∉ boundary) :
    NoDelimiterBefore boundary [Byte.lf] := by
  intro rest
  have hnil : ¬ Boundary.delimiter boundary <:+: [] := by
    simp [Boundary.delimiter]
  have hlf : ∀ b ∈ [Byte.lf], b ∉ Boundary.delimiter boundary := by
    intro b hb
    rw [List.mem_singleton.mp hb]
    exact lf_notMem_delimiter hboundary
  exact Boundary.firstOccurrence_behind_separator hnil (List.cons_ne_nil _ _) hlf

/-- If no delimiter comes before one which a line feed precedes, the pattern is not
completed before it either. -/
theorem leadsTo_of_noDelimiterBefore
    (h : NoDelimiterBefore boundary (front ++ [Byte.lf])) (hpadding : Byte.lf ∉ padding) :
    Boundary.LeadsTo boundary (front ++ Boundary.pattern boundary ++ padding) front
      padding where
  eq := rfl
  clean := hpadding
  first := by
    rintro - ⟨before, behind, hwithin⟩
    have hne : front ++ Boundary.pattern boundary ≠ [] :=
      List.append_ne_nil_of_right_ne_nil _ (List.cons_ne_nil _ _)
    have htext := List.dropLast_append_getLast hne
    rw [← hwithin] at htext
    generalize (front ++ Boundary.pattern boundary).getLast hne = last at htext
    have hlength := congrArg List.length htext
    simp only [List.length_append, List.length_singleton] at hlength
    -- The delimiter of an earlier pattern would be an earlier delimiter.
    have hearlier : Boundary.OccursAt (Boundary.delimiter boundary)
        (front ++ [Byte.lf] ++ Boundary.delimiter boundary ++ [])
        (before ++ [Byte.lf]).length := by
      have hlayout : front ++ [Byte.lf] ++ Boundary.delimiter boundary ++ [] =
          before ++ [Byte.lf] ++ Boundary.delimiter boundary ++ (behind ++ [last]) := by
        calc front ++ [Byte.lf] ++ Boundary.delimiter boundary ++ []
            = front ++ Boundary.pattern boundary := by simp [Boundary.pattern]
          _ = before ++ Boundary.pattern boundary ++ behind ++ [last] := htext.symm
          _ = before ++ [Byte.lf] ++ Boundary.delimiter boundary ++
                (behind ++ [last]) := by simp [Boundary.pattern]
      rw [hlayout]
      exact Boundary.occursAt_length _ _ _
    refine (h []).first _ ?_ hearlier
    rw [List.length_append, List.length_append]
    omega

end Delimiter

namespace Part

namespace Reader

variable {limit : Nat} {boundary text rest : Bytes}

/-- The scanner stops behind the line of the next delimiter. -/
theorem feed_delimiterLine (hboundary : Byte.lf ∉ boundary)
    (htext : NoDelimiterBefore boundary text) (hend : ∃ front, text = front ++ [Byte.lf])
    {line : Bytes} (hline : Bytes.IsLine line) (rest : Bytes) :
    ∃ scanner : Boundary.Scanner, scanner.isDone = true ∧
      (new boundary).feed (text ++ Boundary.delimiter boundary ++ (line ++ rest)) =
        feed { new boundary with scanner } rest := by
  obtain ⟨front, rfl⟩ := hend
  obtain ⟨padding, hpadding, rfl⟩ := hline
  have hfirst := (leadsTo_of_noDelimiterBefore htext hpadding).firstBoundaryLine
    hboundary rest
  have hlayout : front ++ [Byte.lf] ++ Boundary.delimiter boundary ++
      (padding ++ [Byte.lf] ++ rest) =
      front ++ Boundary.pattern boundary ++ padding ++ Byte.lf :: rest := by
    simp [Boundary.pattern]
  have hdrop : (front ++ Boundary.pattern boundary ++ padding ++ Byte.lf :: rest).drop
      ((front ++ Boundary.pattern boundary ++ padding).length + 1) = rest := by
    rw [← List.drop_drop, List.drop_left]
    rfl
  obtain ⟨hdone, hrest⟩ := Boundary.Scanner.feed_of_firstBoundaryLine hboundary false hfirst
  rw [hdrop] at hrest
  rw [hlayout]
  refine ⟨_, hdone, ?_⟩
  have hne : front ++ Boundary.pattern boundary ++ padding ++ Byte.lf :: rest ≠ [] :=
    List.append_ne_nil_of_right_ne_nil _ (List.cons_ne_nil _ _)
  rw [feed_of_searching rfl hne]
  show feed _ ((Boundary.Scanner.new boundary false).feed _).1 = _
  rw [hrest]
  rfl

/-- A header block is read to its end, and the reader starts again. -/
theorem feed_fieldHead {scanner : Boundary.Scanner} (hscanner : scanner.isDone = true)
    (head : FieldHead limit) (rest : Bytes) :
    (feed { new boundary with scanner } (head.bytes ++ rest)).1 =
      head.summary :: ((new boundary).feed rest).1 := by
  have hblock := ofParser_feed_fields head.lines head.blankEnd rest
  rw [← FieldHead.bytes] at hblock
  simp only [Block.ofParser, Block.mk.injEq] at hblock
  obtain ⟨hclosed, -, hheaders, hfaults, hreturned⟩ := hblock
  have hdata : head.bytes ++ rest ≠ [] := by
    simp [FieldHead.bytes, head.blankEnd.ne_nil]
  have hsearched : ({ new boundary with scanner } : Reader).scanner.isDone = true :=
    hscanner
  -- The parser knows the fields by their spans, and only the headers tell their number.
  have hsummary : Summary.ofParser ((Parser.new false).feed (head.bytes ++ rest)).2 =
      head.summary := by
    have hsize := congrArg List.length hheaders
    rw [Parser.headers, List.length_map, List.length_map] at hsize
    simp only [Summary.ofParser, FieldHead.summary, hfaults, Parser.size, hsize,
      Parser.contentType?, Parser.contentLength?, head.valueOf?_eq hheaders]
  rw [feed_of_block_closed hsearched hclosed hdata]
  show Summary.ofParser ((Parser.new false).feed (head.bytes ++ rest)).2 ::
      ((new boundary).feed ((Parser.new false).feed (head.bytes ++ rest)).1).1 = _
  rw [hsummary, hreturned]

/-- The next part is given back. -/
theorem feed_part (hboundary : Byte.lf ∉ boundary)
    (htext : NoDelimiterBefore boundary text) (hend : ∃ front, text = front ++ [Byte.lf])
    (part : FieldPart limit boundary) (rest : Bytes) :
    ((new boundary).feed (text ++ (part.front ++ rest))).1 =
      part.fieldHead.summary :: ((new boundary).feed rest).1 := by
  have hlayout : text ++ (part.front ++ rest) = text ++ Boundary.delimiter boundary ++
      (part.delimiterRest ++ (part.fieldHead.bytes ++ rest)) := by
    rw [WrittenPart.front, part.head_eq, FieldHead.bytes_toHead]
    simp only [List.append_assoc]
  obtain ⟨scanner, hscanner, hfed⟩ := feed_delimiterLine hboundary htext hend
    part.isLine_delimiterRest (part.fieldHead.bytes ++ rest)
  rw [hlayout, hfed, feed_fieldHead hscanner]

/-- Nothing is given back for the closing delimiter. -/
theorem feed_closing (hboundary : Byte.lf ∉ boundary)
    (htext : NoDelimiterBefore boundary text) (hend : ∃ front, text = front ++ [Byte.lf])
    (ending : Option LineEnd) :
    ((new boundary).feed
      (text ++ fieldBody boundary ([] : List (FieldPart limit boundary)) ending)).1 =
      [] := by
  have hline (lineEnd : LineEnd) : ((new boundary).feed (text ++
      (Boundary.delimiter boundary ++ [Byte.dash, Byte.dash] ++ lineEnd.bytes))).1 =
        [] := by
    have hlayout : text ++ (Boundary.delimiter boundary ++ [Byte.dash, Byte.dash] ++
        lineEnd.bytes) = text ++ Boundary.delimiter boundary ++
          ([Byte.dash, Byte.dash] ++ lineEnd.bytes ++ []) := by
      simp only [List.append_assoc, List.append_nil]
    obtain ⟨scanner, -, hfed⟩ := feed_delimiterLine hboundary htext hend
      (lineEnd.isLine_append (by decide : Byte.lf ∉ [Byte.dash, Byte.dash])) []
    rw [hlayout, hfed, feed_nil]
  cases ending with
  | some lineEnd => exact hline lineEnd
  | none =>
      -- A line feed behind it would not make a part either.
      have hfed := ((new boundary).feed_append (text ++ (Boundary.delimiter boundary ++
        [Byte.dash, Byte.dash])) LineEnd.lf.bytes).1
      rw [List.append_assoc, hline] at hfed
      have hnothing := (List.append_eq_nil_iff.mp hfed.symm).1
      simpa [fieldBody, writtenBody] using hnothing

/-- The content of a part ends with a line feed, and a body starts behind one. -/
theorem feed_fieldBody (hboundary : ∀ b ∈ boundary, Byte.isLineEnd b = false)
    (htext : NoDelimiterBefore boundary text) (hend : ∃ front, text = front ++ [Byte.lf])
    (parts : List (FieldPart limit boundary)) (ending : Option LineEnd) :
    ((new boundary).feed (text ++ fieldBody boundary parts ending)).1 =
      parts.map fun part => part.fieldHead.summary := by
  have hlf := lf_notMem_of_isLineEnd hboundary
  induction parts generalizing text with
  | nil => exact feed_closing hlf htext hend ending
  | cons part later ih =>
      -- After a restart the content is skipped, so it takes the place of the text.
      have hcontent := part.noDelimiterBefore hboundary 0
      have hcontentEnd : ∃ front,
          part.content.drop 0 ++ part.contentEnd.bytes = front ++ [Byte.lf] := by
        cases part.contentEnd with
        | lf => exact ⟨part.content.drop 0, rfl⟩
        | crlf => exact ⟨part.content.drop 0 ++ [Byte.cr], by simp [LineEnd.bytes]⟩
      have hlater := ih hcontent hcontentEnd
      rw [List.drop_zero] at hlater
      rw [fieldBody_cons, feed_part hlf htext hend, hlater]
      rfl

/-- The line feed before a body changes nothing but the scanner. -/
theorem feed_start (boundary data : Bytes) :
    ((start boundary).feed data).1 = ((new boundary).feed (Byte.lf :: data)).1 := by
  have hfirst : (new boundary).feed [Byte.lf] = ([], start boundary) := by
    rw [feed_of_searching rfl (List.cons_ne_nil _ _)]
    exact feed_nil _
  have hfed := ((new boundary).feed_append [Byte.lf] data).1
  rw [hfirst, List.nil_append] at hfed
  exact hfed.symm

/-- However a body is cut into chunks, the reader gives back what its header blocks
say, in their order. -/
theorem feedAll_fieldBody (hboundary : ∀ b ∈ boundary, Byte.isLineEnd b = false)
    (parts : List (FieldPart limit boundary)) (ending : Option LineEnd)
    {chunks : List Bytes} (hchunks : chunks.flatten = fieldBody boundary parts ending) :
    (feedAll feed (start boundary) chunks).1.flatten =
      parts.map fun part => part.fieldHead.summary := by
  have hlf := lf_notMem_of_isLineEnd hboundary
  rw [((start boundary).feedAll_eq_feed_flatten chunks).1, hchunks, feed_start]
  exact feed_fieldBody hboundary (noDelimiterBefore_lf hlf) ⟨[], rfl⟩ parts ending

end Reader

end Part

end StreamingHttp
