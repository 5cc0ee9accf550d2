import StreamingHttp.Proofs.Header.ChunkIndependence
import StreamingHttp.Proofs.Header.FieldTracking

/-!
# The parser reads the header block

The parser keeps spans and looks at a line once, when its line feed arrives.
`Block.ofText` reads the same block with all its lines at hand.  Both say the same
of every text in which carriage returns only end lines.

`Reading` is the invariant between two lines of a block: what the parser says of
the settled fields, and which name and texts it has of an open one.

* `reading_addLine_continuation`, `reading_addLine_field` and
  `reading_addLine_malformed` take it over one line;
* `ofParser_feed_lines` takes it over all lines of a block, by induction on them.
-/

namespace StreamingHttp

namespace Header

/-- A field which continuations may extend, with its name and its texts. -/
structure OpenField where
  name : Bytes
  texts : List Bytes

/-- What the entries of a parser say.  All fields are settled, but for an open one,
which comes last. -/
inductive Tracks (parser : Parser) (settled : List (Bytes × Bytes)) :
    Option OpenField → Prop
  | shut (htarget : parser.foldTarget = none)
      (hentries : List.Forall₂ (fun entry header => entry.Says parser.block header)
        parser.entries settled) :
      Tracks parser settled none
  | opened {field : OpenField} (before : List Entry) {entry : Entry}
      (hlast : parser.entries = before ++ [entry])
      (htarget : parser.foldTarget = some before.length)
      (hentries : List.Forall₂ (fun entry header => entry.Says parser.block header)
        before settled)
      (hopen : entry.Collects parser.block field.name field.texts) :
      Tracks parser settled (some field)

/-- The invariant between two lines of a block. -/
structure Reading (parser : Parser) (startLine : Bytes)
    (settled : List (Bytes × Bytes)) (current : Option OpenField) : Prop where
  phase : parser.phase = .fields
  unfinished : parser.unfinished = []
  startLine : ∃ after, parser.startSpan.Marks parser.block startLine after
  tracks : Tracks parser settled current

/-- The fields which lines add, if this one is open before them. -/
def fieldsAfter (current : Option OpenField) (lines : List Bytes) :
    List (Bytes × Bytes) :=
  (current.map fun field =>
      (field.name, joined (field.texts ++ (lines.takeWhile isContinuation).map
        (Bytes.trim Byte.isBlank)))).toList
    ++ fieldsOf lines

/-! ### What the parser says -/

theorem headers_eq_of_forall₂ (parser : Parser) {entries : List Entry}
    {headers : List (Bytes × Bytes)}
    (h : List.Forall₂ (fun entry header => entry.Says parser.block header)
      entries headers) :
    entries.map (fun entry => (parser.entryName entry, parser.entryValue entry)) =
      headers := by
  induction h with
  | nil => rfl
  | cons hsays _ ih =>
      obtain ⟨⟨after, hname⟩, raw, rest, hvalue, heq⟩ := hsays
      rw [List.map_cons, ih, Parser.entryName, Parser.entryValue, Parser.slice,
        Parser.slice, hname.slice_eq, hvalue.slice_eq, heq]

/-- What entries say does not change when the block grows. -/
theorem forall₂_says_append {entries : List Entry} {block : Bytes}
    {headers : List (Bytes × Bytes)}
    (h : List.Forall₂ (fun entry header => entry.Says block header) entries headers)
    (line : Bytes) :
    List.Forall₂ (fun entry header => entry.Says (block ++ line) header)
      entries headers :=
  h.imp fun _ _ hsays => hsays.append line

/-- An open field is settled by what no longer continues it. -/
theorem Tracks.forall₂_says {parser : Parser} {settled : List (Bytes × Bytes)}
    {current : Option OpenField} (h : Tracks parser settled current) :
    List.Forall₂ (fun entry header => entry.Says parser.block header)
      parser.entries (settled ++ fieldsAfter current []) := by
  cases h with
  | shut _ hentries => simpa [fieldsAfter, fieldsOf] using hentries
  | opened before hlast _ hentries hopen =>
      rw [hlast]
      apply List.rel_append hentries
      simpa [fieldsAfter, fieldsOf] using hopen.says

theorem Reading.headers_eq {parser : Parser} {startLine : Bytes}
    {settled : List (Bytes × Bytes)} {current : Option OpenField}
    (h : Reading parser startLine settled current) :
    parser.headers = settled ++ fieldsAfter current [] :=
  headers_eq_of_forall₂ parser h.tracks.forall₂_says

theorem Reading.startLine_eq {parser : Parser} {startLine : Bytes}
    {settled : List (Bytes × Bytes)} {current : Option OpenField}
    (h : Reading parser startLine settled current) :
    parser.startLine = startLine := by
  obtain ⟨after, hmarks⟩ := h.startLine
  exact hmarks.slice_eq

/-! ### One line -/

namespace Parser

/-- The parser with one more line in its block. -/
def taken (parser : Parser) (line : Bytes) : Parser :=
  { parser with
    block := parser.block ++ line
    unfinished := []
    lineCount := parser.lineCount + 1 }

theorem addLine_eq_act {parser : Parser} (hphase : parser.phase = .fields)
    (line : Bytes) :
    parser.addLine line =
      (parser.taken line).act (Line.read false parser.block.length line) := by
  have hexpect : (parser.phase == .startLine) = false := by
    rw [hphase]
    rfl
  rw [addLine, hexpect]
  rfl

end Parser

section OneLine

variable {parser : Parser} {startLine line : Bytes}
  {settled : List (Bytes × Bytes)} {current : Option OpenField}

/-- The empty line ends the block and changes nothing else. -/
theorem ofParser_addLine_blank (h : Reading parser startLine settled current)
    (hline : Bytes.IsLine line) (hempty : content line = []) (rest : Bytes) :
    (parser.addLine line).isDone = true ∧
      Block.ofParser rest (parser.addLine line) =
        { closed := true
          startLine := startLine
          fields := settled ++ fieldsAfter current []
          faults := parser.faults
          rest := rest } := by
  rw [Parser.addLine_eq_act h.phase, read_of_content_eq_nil hline hempty]
  obtain ⟨after, hstart⟩ := h.startLine
  have hheaders := headers_eq_of_forall₂ ((parser.taken line).act .blank)
    (forall₂_says_append h.tracks.forall₂_says line)
  refine ⟨rfl, ?_⟩
  rw [← hheaders, ← (hstart.append line).slice_eq]
  rfl

/-- A malformed line settles all fields and is listed. -/
theorem reading_addLine_malformed (h : Reading parser startLine settled current)
    (hline : Bytes.IsLine line) (hne : content line ≠ [])
    (hkind : isContinuation (content line) = false) {kind : FaultKind}
    (hfield : readField (content line) = .error kind) :
    Reading (parser.addLine line) startLine (settled ++ fieldsAfter current [])
        none ∧
      (parser.addLine line).lineCount = parser.lineCount + 1 ∧
      (parser.addLine line).faults =
        parser.faults ++ [⟨kind, parser.lineCount + 1⟩] := by
  rw [Parser.addLine_eq_act h.phase,
    read_malformed hline hne hkind hfield parser.block.length]
  obtain ⟨after, hstart⟩ := h.startLine
  refine ⟨⟨h.phase, rfl, ⟨_, hstart.append line⟩, ?_⟩, rfl, rfl⟩
  exact .shut rfl (forall₂_says_append h.tracks.forall₂_says line)

/-- A field settles all others and is open. -/
theorem reading_addLine_field (h : Reading parser startLine settled current)
    (hline : Bytes.IsLine line) (hcr : Byte.cr ∉ content line)
    (hkind : isContinuation (content line) = false) {name value : Bytes}
    (hfield : readField (content line) = .ok (name, value)) :
    Reading (parser.addLine line) startLine (settled ++ fieldsAfter current [])
        (some ⟨name, [value]⟩) ∧
      (parser.addLine line).lineCount = parser.lineCount + 1 ∧
      (parser.addLine line).faults = parser.faults := by
  obtain ⟨indent, gap, hcut, hgap, hread⟩ :=
    read_field hline hkind hfield parser.block.length
  rw [Parser.addLine_eq_act h.phase, hread]
  obtain ⟨after, hstart⟩ := h.startLine
  refine ⟨⟨h.phase, rfl, ⟨_, hstart.append line⟩, ?_⟩, rfl, rfl⟩
  refine .opened parser.entries rfl ?_ (forall₂_says_append h.tracks.forall₂_says line) ?_
  · exact rfl
  show Entry.Collects _ (parser.block ++ line) name [value]
  refine ⟨⟨(Byte.colon :: indent) ++ value ++ gap, parser.block, ?_, rfl⟩, ?_⟩
  · simp [hcut]
  have hmarks : Span.Marks
      ⟨parser.block.length + name.length + (Byte.colon :: indent).length,
        parser.block.length + name.length + (Byte.colon :: indent).length
          + value.length⟩ (parser.block ++ line) value gap := by
    refine ⟨parser.block ++ name ++ (Byte.colon :: indent), ?_, ?_⟩
    · simp [hcut]
    · simp only [List.length_append]
  -- An empty value is no piece: the first continuation with a text replaces it.
  by_cases hempty : value = []
  · rw [hempty] at hmarks ⊢
    exact ⟨rfl, gap, hmarks⟩
  · rw [show [value].filter (fun text : Bytes => text ≠ []) = [value]
      by simp [hempty]]
    refine ⟨isPiece_of_readField_eq_ok hline hcr hfield, hempty, [], gap, rfl,
      by simp, hgap, ?_, rfl⟩
    rw [foldedText, List.flatMap_nil, List.append_nil]
    exact hmarks

/-- A continuation with nothing to continue is listed. -/
theorem reading_addLine_orphan (h : Reading parser startLine settled none)
    (hline : Bytes.IsLine line)
    (hkind : isContinuation (content line) = true) :
    Reading (parser.addLine line) startLine settled none ∧
      (parser.addLine line).lineCount = parser.lineCount + 1 ∧
      (parser.addLine line).faults =
        parser.faults ++ [⟨.orphanContinuation, parser.lineCount + 1⟩] := by
  obtain ⟨indent, gap, -, -, -, hread⟩ :=
    read_continuation hline hkind parser.block.length
  obtain ⟨after, hstart⟩ := h.startLine
  cases h.tracks with
  | shut htarget hentries =>
      rw [Parser.addLine_eq_act h.phase, hread, Parser.act, Parser.addContinuation]
      rw [show (parser.taken line).foldTarget = none from htarget]
      refine ⟨⟨h.phase, rfl, ⟨_, hstart.append line⟩, ?_⟩, rfl, rfl⟩
      exact .shut rfl (forall₂_says_append hentries line)

/-- A continuation adds its text to the open field. -/
theorem reading_addLine_continuation {field : OpenField}
    (h : Reading parser startLine settled (some field))
    (hline : Bytes.IsLine line) (hcr : Byte.cr ∉ content line)
    (hkind : isContinuation (content line) = true) :
    Reading (parser.addLine line) startLine settled
        (some ⟨field.name,
          field.texts ++ [Bytes.trim Byte.isBlank (content line)]⟩) ∧
      (parser.addLine line).lineCount = parser.lineCount + 1 ∧
      (parser.addLine line).faults = parser.faults := by
  obtain ⟨indent, gap, hcut, hindent, hgap, hread⟩ :=
    read_continuation hline hkind parser.block.length
  have hpiece : IsPiece (Bytes.trim Byte.isBlank (content line)) :=
    isPiece_trim hline hcr fun _ hb => hb
  generalize Bytes.trim Byte.isBlank (content line) = piece at *
  obtain ⟨after, hstart⟩ := h.startLine
  cases h.tracks with
  | opened before hlast htarget hentries hopen =>
      rename_i entry
      rw [Parser.addLine_eq_act h.phase, hread, Parser.act, Parser.addContinuation]
      rw [show (parser.taken line).foldTarget = some before.length from htarget]
      by_cases hempty : piece = []
      · -- Nothing but blanks: the value stays, and the gap behind it grows.
        subst hempty
        simp only [Span.isEmpty, List.length_nil, Nat.add_zero, beq_self_eq_true,
          if_true]
        refine ⟨⟨h.phase, rfl, ⟨_, hstart.append line⟩, ?_⟩, rfl, rfl⟩
        refine .opened before hlast htarget (forall₂_says_append hentries line)
          (hopen.append_blanks fun b hb => ?_)
        rw [hcut, List.append_nil] at hb
        rcases List.mem_append.mp hb with hmem | hmem
        · exact .inl (hindent b hmem)
        · exact hgap.1 b hmem
      · have hsome : Span.isEmpty ⟨parser.block.length + indent.length,
            parser.block.length + indent.length + piece.length⟩ = false := by
          simp [Span.isEmpty, hempty]
        simp only [hsome, Bool.false_eq_true, if_false]
        refine ⟨⟨h.phase, rfl, ⟨_, hstart.append line⟩, ?_⟩, rfl, rfl⟩
        refine .opened before ?_ rfl
          (forall₂_says_append hentries line)
          (hopen.extend hcut hindent hgap hpiece hempty)
        show (parser.entries.modify _ _) = _
        rw [hlast, List.modify_eq_take_drop]
        simp

end OneLine

/-! ### All lines -/

namespace Parser

/-- Bytes without a line feed wait in the unfinished line. -/
theorem feed_append_of_notMem {parser : Parser} (hopen : parser.isDone = false)
    {text : Bytes} (htext : Byte.lf ∉ text) (rest : Bytes) :
    parser.feed (text ++ rest) =
      feed { parser with unfinished := text.reverse ++ parser.unfinished } rest := by
  induction text generalizing parser with
  | nil => rfl
  | cons b text ih =>
      rw [List.mem_cons, not_or] at htext
      rw [List.cons_append, feed, if_neg (by simp [hopen]), push,
        if_neg (Ne.symm htext.1)]
      rw [ih (by exact hopen) htext.2]
      simp

/-- A parser between two lines takes in a line at once. -/
theorem feed_line_append {parser : Parser} (hopen : parser.isDone = false)
    (hunfinished : parser.unfinished = []) {line : Bytes}
    (hline : Bytes.IsLine line) (rest : Bytes) :
    parser.feed (line ++ rest) = (parser.addLine line).feed rest := by
  obtain ⟨body, hbody, rfl⟩ := hline
  rw [List.append_assoc, feed_append_of_notMem hopen hbody, hunfinished,
    List.singleton_append, feed, if_neg (by simpa [isDone] using hopen), push,
    if_pos rfl]
  simp [addLine]

end Parser

section Lines

variable {current : Option OpenField} {before later : List Bytes} {line : Bytes}

theorem fieldsAfter_cons_of_not_continuation
    (hkind : isContinuation line = false) :
    fieldsAfter current (line :: later) =
      fieldsAfter current [] ++ fieldsOf (line :: later) := by
  simp [fieldsAfter, fieldsOf, hkind]

theorem followsField_cons_of_continuation (before : List Bytes)
    (hkind : isContinuation line = true) :
    followsField (line :: before) = followsField before := by
  simp [followsField, hkind]

theorem followsField_cons_of_not_continuation (before : List Bytes)
    (hkind : isContinuation line = false) :
    followsField (line :: before) = (readField line).isOk := by
  simp [followsField, isField, hkind]

theorem body_cons_of_eq_nil {lines : List Bytes} (h : content line = []) :
    Block.body (line :: lines) = [] := by
  simp [Block.body, h]

theorem isClosed_cons_of_eq_nil {lines : List Bytes} (h : content line = []) :
    Block.isClosed (line :: lines) = true := by
  simp [Block.isClosed, h]

theorem restOf_cons_of_eq_nil {lines : List Bytes} (h : content line = [])
    (tail : Bytes) :
    Block.restOf (line :: lines) tail = lines.flatten ++ tail := by
  rw [Block.restOf, if_pos (isClosed_cons_of_eq_nil h), body_cons_of_eq_nil h]
  rfl

theorem body_cons_of_ne_nil {lines : List Bytes} (h : content line ≠ []) :
    Block.body (line :: lines) = content line :: Block.body lines := by
  simp [Block.body, h]

theorem isClosed_cons_of_ne_nil {lines : List Bytes} (h : content line ≠ []) :
    Block.isClosed (line :: lines) = Block.isClosed lines := by
  simp [Block.isClosed, h]

theorem restOf_cons_of_ne_nil {lines : List Bytes} (h : content line ≠ [])
    (tail : Bytes) :
    Block.restOf (line :: lines) tail = Block.restOf lines tail := by
  rw [Block.restOf, Block.restOf, isClosed_cons_of_ne_nil h, body_cons_of_ne_nil h]
  rfl

end Lines

/-- From the invariant on, the parser reads what is left of a block.  The lines
before tell whether a field is open. -/
theorem ofParser_feed_lines {lines : List Bytes} {tail : Bytes}
    (hlines : ∀ line ∈ lines, Bytes.IsLine line ∧ Byte.cr ∉ content line)
    (htail : Byte.lf ∉ tail) {parser : Parser} {startLine : Bytes}
    {settled : List (Bytes × Bytes)} {current : Option OpenField}
    (h : Reading parser startLine settled current) (before : List Bytes)
    (hbefore : followsField before = current.isSome) :
    Block.ofParser (parser.feed (lines.flatten ++ tail)).1
        (parser.feed (lines.flatten ++ tail)).2 =
      { closed := Block.isClosed lines
        startLine := startLine
        fields := settled ++ fieldsAfter current (Block.body lines)
        faults := parser.faults ++
          faultsOf (parser.lineCount + 1) before (Block.body lines)
        rest := Block.restOf lines tail } := by
  have hopen : parser.isDone = false := by
    rw [Parser.isDone, h.phase]
    rfl
  induction lines generalizing parser settled current before with
  | nil =>
      have hfed := Parser.feed_append_of_notMem hopen htail []
      rw [List.append_nil] at hfed
      rw [List.flatten_nil, List.nil_append, hfed]
      show Block.ofParser [] parser = _
      simp [Block.ofParser, hopen, h.headers_eq, h.startLine_eq, Block.isClosed,
        Block.body, Block.restOf, faultsOf]
  | cons line lines ih =>
      -- One line, and then the invariant for the lines after it.
      obtain ⟨hline, hcr⟩ := hlines line (by simp)
      have hlater : ∀ other ∈ lines, Bytes.IsLine other ∧ Byte.cr ∉ content other :=
        fun other hother => hlines other (by simp [hother])
      rw [List.flatten_cons, List.append_assoc,
        Parser.feed_line_append hopen h.unfinished hline]
      by_cases hempty : content line = []
      · obtain ⟨hdone, hblock⟩ :=
          ofParser_addLine_blank h hline hempty (lines.flatten ++ tail)
        rw [Parser.feed_of_isDone hdone, hblock, isClosed_cons_of_eq_nil hempty,
          body_cons_of_eq_nil hempty, restOf_cons_of_eq_nil hempty, faultsOf,
          List.append_nil]
      rw [body_cons_of_ne_nil hempty, isClosed_cons_of_ne_nil hempty,
        restOf_cons_of_ne_nil hempty]
      -- Any other line leaves the block open, whatever becomes of the fields.
      have hstillOpen : ∀ {settled current},
          Reading (parser.addLine line) startLine settled current →
            (parser.addLine line).isDone = false := by
        intro settled current hreading
        rw [Parser.isDone, hreading.phase]
        rfl
      cases hkind : isContinuation (content line) with
      | true =>
          have hfollows := followsField_cons_of_continuation before hkind
          rw [hbefore] at hfollows
          cases current with
          | none =>
              obtain ⟨hreading, hcount, hfaults⟩ :=
                reading_addLine_orphan h hline hkind
              rw [ih hlater hreading _ hfollows (hstillOpen hreading), hcount,
                hfaults]
              simp [fieldsAfter, fieldsOf, faultsOf, faultKind?, hkind, hbefore]
          | some field =>
              obtain ⟨hreading, hcount, hfaults⟩ :=
                reading_addLine_continuation h hline hcr hkind
              rw [ih hlater hreading _ hfollows (hstillOpen hreading), hcount,
                hfaults]
              simp [fieldsAfter, fieldsOf, faultsOf, faultKind?, hkind, hbefore]
      | false =>
          have hfollows := followsField_cons_of_not_continuation before hkind
          rw [fieldsAfter_cons_of_not_continuation hkind]
          cases hfield : readField (content line) with
          | error kind =>
              rw [hfield] at hfollows
              obtain ⟨hreading, hcount, hfaults⟩ :=
                reading_addLine_malformed h hline hempty hkind hfield
              rw [ih hlater hreading _ hfollows (hstillOpen hreading), hcount,
                hfaults]
              simp [fieldsAfter, fieldsOf, faultsOf, faultKind?, hkind, hfield]
          | ok header =>
              rw [hfield] at hfollows
              obtain ⟨hreading, hcount, hfaults⟩ :=
                reading_addLine_field h hline hcr hkind hfield
              rw [ih hlater hreading _ hfollows (hstillOpen hreading), hcount,
                hfaults]
              simp [fieldsAfter, fieldsOf, faultsOf, faultKind?, hkind, hfield]

/-! ### A whole block -/

/-- A parser without a start line starts with the invariant. -/
theorem reading_new_false : Reading (Parser.new false) [] [] none where
  phase := rfl
  unfinished := rfl
  startLine := ⟨[], [], rfl, rfl⟩
  tracks := .shut rfl .nil

/-- The start line establishes the invariant. -/
theorem reading_addLine_start {line : Bytes} (hline : Bytes.IsLine line)
    (hne : content line ≠ []) :
    Reading ((Parser.new true).addLine line)
        (Bytes.trimEnd Byte.isBlank (content line)) [] none ∧
      ((Parser.new true).addLine line).lineCount = 1 ∧
      ((Parser.new true).addLine line).faults = [] := by
  obtain ⟨span, after, hread, hmarks⟩ := read_start hline hne []
  have hadd : (Parser.new true).addLine line =
      ((Parser.new true).taken line).act (.start span) := by
    rw [← hread]
    rfl
  rw [hadd]
  exact ⟨⟨rfl, rfl, ⟨after, hmarks⟩, .shut rfl .nil⟩, rfl, rfl⟩

/-- Fed lines and further bytes without a line feed, a new parser reads the block
which they start with. -/
theorem ofParser_feed_new {lines : List Bytes} {tail : Bytes}
    (hlines : ∀ line ∈ lines, Bytes.IsLine line ∧ Byte.cr ∉ content line)
    (htail : Byte.lf ∉ tail) (hasStartLine : Bool) :
    Block.ofParser
        ((Parser.new hasStartLine).feed (lines.flatten ++ tail)).1
        ((Parser.new hasStartLine).feed (lines.flatten ++ tail)).2 =
      { closed := Block.isClosed lines
        startLine :=
          if hasStartLine then
            Bytes.trimEnd Byte.isBlank ((Block.body lines).headD [])
          else []
        fields := fieldsOf (Block.fieldLines hasStartLine lines)
        faults := faultsOf (if hasStartLine then 2 else 1) []
          (Block.fieldLines hasStartLine lines)
        rest := Block.restOf lines tail } := by
  cases hasStartLine with
  | false =>
      rw [ofParser_feed_lines hlines htail reading_new_false [] rfl]
      rfl
  | true =>
      cases lines with
      | nil =>
          have hopen : (Parser.new true).isDone = false := rfl
          have hfed := Parser.feed_append_of_notMem hopen htail []
          rw [List.append_nil] at hfed
          rw [List.flatten_nil, List.nil_append, hfed]
          rfl
      | cons line lines =>
          obtain ⟨hline, hcr⟩ := hlines line (by simp)
          rw [List.flatten_cons, List.append_assoc,
            Parser.feed_line_append rfl rfl hline]
          by_cases hempty : content line = []
          · -- The block ends before it has a start line.
            have hadd : (Parser.new true).addLine line =
                ((Parser.new true).taken line).act .blank := by
              rw [← read_of_content_eq_nil hline hempty true 0]
              rfl
            rw [Parser.feed_of_isDone (by rw [hadd]; rfl), hadd,
              isClosed_cons_of_eq_nil hempty, restOf_cons_of_eq_nil hempty,
              Block.fieldLines, body_cons_of_eq_nil hempty]
            rfl
          · have hlater : ∀ other ∈ lines,
                Bytes.IsLine other ∧ Byte.cr ∉ content other :=
              fun other hother => hlines other (by simp [hother])
            obtain ⟨hreading, hcount, hfaults⟩ := reading_addLine_start hline hempty
            rw [ofParser_feed_lines hlater htail hreading [] rfl,
              hcount, hfaults, isClosed_cons_of_ne_nil hempty,
              restOf_cons_of_ne_nil hempty, Block.fieldLines,
              body_cons_of_ne_nil hempty]
            rfl

/-- Fed a text in any chunks, a parser at the start of a block reads the block
which the text starts with, and hands back what follows it. -/
theorem ofParser_feedAll_eq_ofText {hasStartLine : Bool} {parser : Parser}
    (hparser : parser.AtStart hasStartLine) {chunks : List Bytes}
    (hcr : CarriageReturnsEndLines chunks.flatten) :
    Block.ofParser (feedAll Parser.feed parser chunks).1.flatten
        (feedAll Parser.feed parser chunks).2 =
      Block.ofText hasStartLine chunks.flatten := by
  rw [hparser.eq_new]
  have hfed := Parser.handsBack.feed_flatten (Parser.new hasStartLine) chunks
  obtain ⟨hlines, htail, htext⟩ := Bytes.exists_lines chunks.flatten
  have hcontents : ∀ line ∈ Bytes.lines chunks.flatten,
      Bytes.IsLine line ∧ Byte.cr ∉ content line := by
    intro line hmem
    refine ⟨hlines line hmem, hcr.notMem_content (hlines line hmem) ?_⟩
    rw [htext]
    exact (List.infix_of_mem_flatten hmem).trans (List.prefix_append _ _).isInfix
  have hblock := ofParser_feed_new hcontents htail hasStartLine
  rw [← htext, hfed] at hblock
  exact hblock

/-- A start line, a field over three lines of which one is blank, and an orphan
behind a malformed line, cut inside the fold. -/
theorem ofParser_feedAll_folded_field :
    Parser.AtStart true (((Parser.new false).run [.feed [0x78, 0x0A]]).reset true) ∧
      CarriageReturnsEndLines
        [[0x47, 0x0D, 0x0A, 0x41, 0x3A, 0x0D, 0x0A, 0x20, 0x62, 0x0D],
          [0x0A, 0x09, 0x0A, 0x20, 0x63, 0x20, 0x0A, 0x78, 0x0A, 0x20, 0x79],
          [], [0x0A, 0x0A, 0x7A]].flatten ∧
      Block.ofParser
        (feedAll Parser.feed
          (((Parser.new false).run [.feed [0x78, 0x0A]]).reset true)
          [[0x47, 0x0D, 0x0A, 0x41, 0x3A, 0x0D, 0x0A, 0x20, 0x62, 0x0D],
            [0x0A, 0x09, 0x0A, 0x20, 0x63, 0x20, 0x0A, 0x78, 0x0A, 0x20, 0x79],
            [], [0x0A, 0x0A, 0x7A]]).1.flatten
        (feedAll Parser.feed
          (((Parser.new false).run [.feed [0x78, 0x0A]]).reset true)
          [[0x47, 0x0D, 0x0A, 0x41, 0x3A, 0x0D, 0x0A, 0x20, 0x62, 0x0D],
            [0x0A, 0x09, 0x0A, 0x20, 0x63, 0x20, 0x0A, 0x78, 0x0A, 0x20, 0x79],
            [], [0x0A, 0x0A, 0x7A]]).2 =
        { closed := true
          startLine := [0x47]
          fields := [([0x41], [0x62, 0x20, 0x63])]
          faults := [⟨.missingColon, 6⟩, ⟨.orphanContinuation, 7⟩]
          rest := [0x7A] } := by
  have hstart : Parser.AtStart true
      (((Parser.new false).run [.feed [0x78, 0x0A]]).reset true) :=
    .inr ⟨false, [.feed [0x78, 0x0A]], rfl⟩
  refine ⟨hstart, by decide, ?_⟩
  rw [ofParser_feedAll_eq_ofText hstart (by decide)]
  decide

end Header

end StreamingHttp
