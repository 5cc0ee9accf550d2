import StreamingHttp.Proofs.Header.Layout
import StreamingHttp.Proofs.Header.PositionedLine

/-!
# Reading a block at positions

All bytes which are fed may be put into the buffer at once, and the lines found in it by
their positions: line feeds are looked for behind the bytes which were there before, a line
is cut out of the buffer and read, and what follows the blank line in the bytes fed last is
handed back.  `Parser.feedAt?` takes bytes in in this way, and `Parser.headersAt?` and
`Parser.valueOfAt?` cut names and values out of the buffer.  All of them give nothing if a
position is not one of the bytes which it is used on.

* `takeLinesAt?_eq`: what the lines of a buffer lead to, by induction on the lines.  The
  first one may start before the bytes fed last; the others are looked at as a whole.
* `LaidOut.feedAt?_eq`: so bytes are taken in as they are one by one.
* `positions_in_range`: where everything lies after every history, and that no position is
  out of range there.
-/

namespace StreamingHttp

namespace Header

/-! ### The lines of a buffer -/

namespace Parser

variable {parser next : Parser}

/-- Acts on what a line says.  `none` stands for a field to extend which is not there. -/
def actAt? (parser : Parser) (line : Line) : Option Parser :=
  match line, parser.foldTarget with
  | .continuation content, some index =>
      if content.isEmpty ∨ index < parser.entries.length then
        some (parser.addContinuation content)
      else none
  | _, _ => some (parser.act line)

/-- Takes in a complete line. -/
def addLineAt? (parser : Parser) (line : Bytes) : Option Parser :=
  (Line.readAt? (parser.phase == .startLine) parser.lineStart line).bind
    (parser.taken line).actAt?

theorem eq_act_of_actAt? {line : Line} (h : parser.actAt? line = some next) :
    next = parser.act line := by
  unfold actAt? at h
  split at h
  · split at h
    · cases h
      rfl
    · cases h
  · cases h
    rfl

theorem actAt?_eq (h : ∀ index ∈ parser.foldTarget, index + 1 = parser.entries.length)
    (line : Line) : parser.actAt? line = some (parser.act line) := by
  unfold actAt?
  split
  · next content index htarget =>
      have := h index htarget
      rw [if_pos (.inr (by omega))]
      rfl
  · rfl

/-- In a line behind the block no position is out of range. -/
theorem LaidOut.addLineAt?_eq (h : parser.LaidOut) (line : Bytes) :
    parser.addLineAt? line = some (parser.addLine line) := by
  rw [addLineAt?, Line.readAt?_eq, Option.bind_some]
  exact @actAt?_eq (parser.taken line) h.foldTarget _

theorem lineStart_addLine (parser : Parser) (line : Bytes) :
    (parser.addLine line).lineStart = parser.lineStart + line.length := by
  rw [lineStart, block_addLine, List.length_append]
  rfl

theorem eq_addLine_of_addLineAt? {line : Bytes} (h : parser.addLineAt? line = some next) :
    next = parser.addLine line := by
  rw [addLineAt?, Line.readAt?_eq, Option.bind_some] at h
  exact eq_act_of_actAt? h

/-- Where the next line of a buffer ends, if it is complete.  The line feed is looked for
from `base` on, because there is none before it in the line which starts last. -/
def nextStop? (parser : Parser) (buffer : Bytes) (base : Nat) : Option (Option Nat) := do
  let start := max parser.lineStart base
  let ahead ← Bytes.slice? start buffer.length buffer
  return (ahead.findIdx? (· == Byte.lf)).map (start + · + 1)

theorem lineStart_lt_of_nextStop? {buffer : Bytes} {base stop : Nat}
    (h : parser.nextStop? buffer base = some (some stop)) : parser.lineStart < stop := by
  rw [nextStop?, Option.bind_eq_bind, Option.bind_eq_some_iff] at h
  obtain ⟨ahead, -, hstop⟩ := h
  rw [Option.pure_def, Option.some_inj, Option.map_eq_some_iff] at hstop
  obtain ⟨offset, -, rfl⟩ := hstop
  omega

/-- Takes in the lines which are complete in a buffer.  Tells where the block ends, if it
does. -/
def takeLinesAt? (parser : Parser) (buffer : Bytes) (base : Nat) :
    Option (Option Nat × Parser) :=
  match _ : parser.nextStop? buffer base with
  | none => none
  | some none => some (none, parser)
  | some (some stop) =>
      match _ : Bytes.slice? parser.lineStart stop buffer with
      | none => none
      | some line =>
          match _ : parser.addLineAt? line with
          | none => none
          | some next =>
              if next.isDone then some (some stop, next)
              else next.takeLinesAt? buffer base
termination_by buffer.length - parser.lineStart
decreasing_by
  have hstop := lineStart_lt_of_nextStop? ‹_›
  have hslice := Bytes.of_slice?_eq_some ‹_›
  have hnext := eq_addLine_of_addLineAt? ‹_›
  rw [hnext, lineStart_addLine]
  omega

/-- One line after the other. -/
theorem takeLinesAt?_eq_bind (parser : Parser) (buffer : Bytes) (base : Nat) :
    parser.takeLinesAt? buffer base =
      (parser.nextStop? buffer base).bind fun stop? =>
        match stop? with
        | none => some (none, parser)
        | some stop =>
            (Bytes.slice? parser.lineStart stop buffer).bind fun line =>
              (parser.addLineAt? line).bind fun next =>
                if next.isDone then some (some stop, next) else next.takeLinesAt? buffer base := by
  rw [takeLinesAt?]
  split
  · next hstop => rw [hstop, Option.bind_none]
  · next hstop => rw [hstop, Option.bind_some]
  · next stop hstop =>
      rw [hstop, Option.bind_some]
      dsimp only
      split
      · next hline => rw [hline, Option.bind_none]
      · next line hline =>
          rw [hline, Option.bind_some]
          split
          · next hnext => rw [hnext, Option.bind_none]
          · next next hnext => rw [hnext, Option.bind_some]

/-- Takes in the next bytes by positions in the buffer. -/
def feedAt? (parser : Parser) (data : Bytes) : Option (Bytes × Parser) :=
  if parser.isDone then some (data, parser)
  else do
    let base := parser.buffer.length
    let buffer := parser.buffer ++ data
    let (stop?, next) ← parser.takeLinesAt? buffer base
    match stop? with
    | none =>
        return ([], { next with unfinished := (buffer.drop next.lineStart).reverse })
    | some stop =>
        let start ← Bytes.distance? base stop
        let rest ← Bytes.slice? start data.length data
        return (rest, next)

section Buffer

variable {line rest tail buffer : Bytes} {lines : List Bytes} {base : Nat}

/-- Behind the last line there is no line to take in. -/
theorem nextStop?_of_notMem (hbuffer : buffer = parser.block ++ tail)
    (htail : Byte.lf ∉ tail) (hbase : base ≤ buffer.length) :
    parser.nextStop? buffer base = some none := by
  have hahead : max parser.lineStart base ≤ buffer.length := by
    rw [hbuffer, List.length_append] at hbase ⊢
    rw [lineStart]
    omega
  have hblock : parser.block.drop (max parser.lineStart base) = [] :=
    List.drop_eq_nil_of_le (Nat.le_max_left _ _)
  have hnone : Byte.lf ∉ buffer.drop (max parser.lineStart base) := by
    rw [hbuffer, List.drop_append, hblock, List.nil_append]
    exact fun hmem => htail (List.mem_of_mem_drop hmem)
  rw [nextStop?, Bytes.slice?_length hahead, Option.bind_eq_bind, Option.bind_some,
    Bytes.findIdx?_of_notMem hnone]
  rfl

/-- A line ends at its line feed, although its first bytes are not looked at again. -/
theorem nextStop?_of_line (hline : Bytes.IsLine line)
    (hbuffer : buffer = parser.block ++ (line ++ rest))
    (hskip : Byte.lf ∉ (line ++ rest).take (base - parser.lineStart)) :
    base < parser.lineStart + line.length ∧
      parser.nextStop? buffer base = some (some (parser.lineStart + line.length)) := by
  obtain ⟨body, hbody, rfl⟩ := hline
  -- The bytes which are not looked at again end before the line feed.
  have hskipped : base - parser.lineStart ≤ body.length := by
    by_contra hlong
    obtain ⟨more, hmore⟩ := Nat.exists_eq_add_of_lt (Nat.lt_of_not_le hlong)
    apply hskip
    rw [hmore, Nat.add_assoc, List.append_assoc, List.take_length_add_append]
    simp
  have hstart : max parser.lineStart base = parser.lineStart + (base - parser.lineStart) := by
    omega
  have hbehind : (parser.block ++ (body ++ [Byte.lf] ++ rest)).drop parser.lineStart =
      body ++ Byte.lf :: rest := by
    rw [lineStart, List.drop_left, List.append_assoc]
    rfl
  have hahead : Bytes.slice? (max parser.lineStart base) buffer.length buffer =
      some (body.drop (base - parser.lineStart) ++ Byte.lf :: rest) := by
    rw [Bytes.slice?_length, hstart, hbuffer, ← List.drop_drop, hbehind,
      List.drop_append_of_le_length hskipped]
    rw [hbuffer, hstart]
    simp only [List.length_append, List.length_singleton, lineStart] at hskipped ⊢
    omega
  have hlength : (body ++ [Byte.lf]).length = body.length + 1 := by simp
  refine ⟨by omega, ?_⟩
  rw [nextStop?, hahead, Option.bind_eq_bind, Option.bind_some,
    Bytes.findIdx?_append_cons fun hmem => hbody (List.mem_of_mem_drop hmem), List.length_drop,
    Option.map_some, Option.pure_def, Option.some_inj, Option.some_inj]
  omega

/-- A line is cut out as a whole and taken in. -/
theorem takeLinesAt?_of_line (h : parser.LaidOut)
    (hbuffer : buffer = parser.block ++ (line ++ rest))
    (hstop : parser.nextStop? buffer base = some (some (parser.lineStart + line.length))) :
    parser.takeLinesAt? buffer base =
      if (parser.addLine line).isDone then
        some (some (parser.addLine line).lineStart, parser.addLine line)
      else (parser.addLine line).takeLinesAt? buffer base := by
  have hslice : Bytes.slice? parser.lineStart (parser.lineStart + line.length) buffer =
      some line := by
    rw [hbuffer, ← List.append_assoc]
    exact Bytes.slice?_append parser.block line rest
  rw [takeLinesAt?_eq_bind, hstop, Option.bind_some]
  dsimp only
  rw [hslice, Option.bind_some, h.addLineAt?_eq, Option.bind_some, lineStart_addLine]

/-- What the lines of a buffer lead to: the state behind the blank line, or the state behind
the last line with the bytes which are left. -/
theorem takeLinesAt?_eq (hlines : ∀ line ∈ lines, Bytes.IsLine line) (htail : Byte.lf ∉ tail)
    (h : parser.LaidOut) (hopen : parser.isDone = false)
    (hbuffer : buffer = parser.block ++ (lines.flatten ++ tail)) (hbase : base ≤ buffer.length)
    (hskip : Byte.lf ∉ (lines.flatten ++ tail).take (base - parser.lineStart)) :
    let fed := Parser.feed { parser with unfinished := [] } (lines.flatten ++ tail)
    (fed.2.isDone = true ∧
        parser.takeLinesAt? buffer base = some (some fed.2.lineStart, fed.2)) ∨
      (fed.2.isDone = false ∧ ∃ last, parser.takeLinesAt? buffer base = some (none, last) ∧
        fed.2 = { last with unfinished := (buffer.drop last.lineStart).reverse }) := by
  induction lines generalizing parser with
  | nil =>
      have hfed := @feed_append_of_notMem { parser with unfinished := [] } hopen _ htail []
      rw [List.flatten_nil, List.nil_append] at hbuffer ⊢
      rw [List.append_nil] at hfed
      rw [hfed]
      refine .inr ⟨hopen, parser, ?_, ?_⟩
      · rw [takeLinesAt?_eq_bind, nextStop?_of_notMem hbuffer htail hbase, Option.bind_some]
      · rw [hbuffer, lineStart, List.drop_left, List.append_nil]
        rfl
  | cons line lines ih =>
      obtain ⟨hline, hlater⟩ := List.forall_mem_cons.mp hlines
      rw [List.flatten_cons, List.append_assoc] at hbuffer hskip ⊢
      obtain ⟨hbehind, hstop⟩ := nextStop?_of_line hline hbuffer hskip
      have htake := takeLinesAt?_of_line h hbuffer hstop
      have hfed : Parser.feed { parser with unfinished := [] }
          (line ++ (lines.flatten ++ tail)) =
            (parser.addLine line).feed (lines.flatten ++ tail) :=
        @feed_line_append { parser with unfinished := [] } hopen rfl line hline _
      rw [hfed, htake]
      cases hdone : (parser.addLine line).isDone with
      | true =>
          rw [feed_of_isDone hdone, if_pos rfl]
          exact .inl ⟨hdone, rfl⟩
      | false =>
          rw [if_neg Bool.false_ne_true]
          -- The next line starts behind `base`, so all of it is looked at.
          have hnext : base - (parser.addLine line).lineStart = 0 := by
            rw [lineStart_addLine]
            omega
          have hunfinished : { parser.addLine line with unfinished := [] } =
              parser.addLine line := by
            rw [← unfinished_addLine parser line]
          have hblock : buffer = (parser.addLine line).block ++ (lines.flatten ++ tail) := by
            rw [block_addLine, hbuffer, List.append_assoc]
          have hlast := ih hlater (h.addLine hline) hdone hblock (by rw [hnext]; simp)
          rwa [hunfinished] at hlast

end Buffer

/-- What is handed back follows the blank line in the bytes which were fed last. -/
theorem LaidOut.rest_eq_drop (h : parser.LaidOut) {data : Bytes}
    (hdone : (parser.feed data).2.isDone = true) :
    parser.buffer.length ≤ (parser.feed data).2.lineStart ∧
      (parser.feed data).2.lineStart ≤ parser.buffer.length + data.length ∧
      (parser.feed data).1 =
        data.drop ((parser.feed data).2.lineStart - parser.buffer.length) := by
  have hkept := buffer_append_feed parser data
  have hblock : (parser.feed data).2.buffer = (parser.feed data).2.block := by
    rw [buffer, (h.feed data).done hdone, List.reverse_nil, List.append_nil]
  have hlength := congrArg List.length hkept
  have hle := length_feed_le parser data
  rw [hblock, List.length_append, List.length_append] at hlength
  rw [lineStart]
  have hstart : parser.buffer.length ≤ (parser.feed data).2.block.length := by omega
  have hdrop := congrArg (List.drop (parser.feed data).2.block.length) hkept
  rw [hblock, List.drop_left, List.drop_append, List.drop_eq_nil_of_le hstart,
    List.nil_append] at hdrop
  exact ⟨hstart, by omega, hdrop⟩

/-- While bytes are taken in, no position is out of range. -/
theorem LaidOut.feedAt?_eq (h : parser.LaidOut) (data : Bytes) :
    parser.feedAt? data = some (parser.feed data) := by
  cases hopen : parser.isDone with
  | true => rw [feedAt?, if_pos hopen, feed_of_isDone hopen]
  | false =>
      obtain ⟨hlines, htail, htext⟩ := Bytes.exists_lines (parser.unfinished.reverse ++ data)
      have hbuffer : parser.buffer ++ data =
          parser.block ++ (parser.unfinished.reverse ++ data) := List.append_assoc _ _ _
      have hskip : Byte.lf ∉ (parser.unfinished.reverse ++ data).take
          (parser.buffer.length - parser.lineStart) := by
        have hlength : parser.buffer.length - parser.lineStart =
            parser.unfinished.reverse.length := by
          rw [buffer, List.length_append, lineStart, Nat.add_sub_cancel_left]
        rw [hlength, List.take_left]
        simpa using h.unfinished
      rw [htext] at hbuffer hskip
      have htake := takeLinesAt?_eq hlines htail h hopen hbuffer (by simp) hskip
      rw [← htext, ← h.feed_eq hopen data] at htake
      rw [feedAt?, if_neg (by simp [hopen])]
      rcases htake with ⟨hdone, htake⟩ | ⟨hwaits, last, htake, hlast⟩
      · obtain ⟨hstart, hstop, hrest⟩ := h.rest_eq_drop hdone
        simp only [htake, Option.bind_eq_bind, Option.bind_some, Bytes.distance?_of_le hstart]
        rw [Bytes.slice?_length (by omega), ← hrest]
        rfl
      · simp only [htake, Option.bind_eq_bind, Option.bind_some]
        rw [← hlast, Option.pure_def, ← feed_fst_of_not_done hwaits]

/-! ### What is handed out -/

/-- Name and value of an entry, cut out of the buffer. -/
def entryAt? (parser : Parser) (entry : Entry) : Option (Bytes × Bytes) := do
  let name ← Bytes.slice? entry.name.start entry.name.stop parser.buffer
  let raw ← Bytes.slice? entry.value.start entry.value.stop parser.buffer
  return (name, if entry.folded then unfold raw else raw)

/-- Names and values of the fields, cut out of the buffer. -/
def headersAt? (parser : Parser) : Option (List (Bytes × Bytes)) :=
  parser.entries.mapM parser.entryAt?

/-- The value of the first field whose name satisfies a condition, cut out of the buffer.
Fields behind it are not looked at. -/
def valueOfAt? (parser : Parser) (p : Bytes → Bool) : Option (Option Bytes) :=
  parser.entries.findSomeM? fun entry => do
    let (name, value) ← parser.entryAt? entry
    return if p name then some value else none

/-- The start line, cut out of the buffer. -/
def startLineAt? (parser : Parser) : Option Bytes :=
  Bytes.slice? parser.startSpan.start parser.startSpan.stop parser.buffer

/-- A span of the complete lines is one of the buffer. -/
theorem slice?_buffer {span : Span} (hstart : span.start ≤ span.stop)
    (hstop : span.stop ≤ parser.block.length) :
    Bytes.slice? span.start span.stop parser.buffer = some (parser.slice span) := by
  have hinside : span.stop ≤ parser.buffer.length := by
    rw [buffer, List.length_append]
    omega
  rw [Bytes.slice?, if_pos ⟨hstart, hinside⟩, buffer, List.take_append_of_le_length hstop,
    List.drop_take]
  rfl

theorem LaidOut.startLineAt?_eq (h : parser.LaidOut) :
    parser.startLineAt? = some parser.startLine :=
  slice?_buffer h.start_le h.startStop_le

theorem LaidOut.entryAt?_eq (h : parser.LaidOut) {entry : Entry}
    (hentry : entry ∈ parser.entries) :
    parser.entryAt? entry = some (parser.entryName entry, parser.entryValue entry) := by
  have hstands := h.stands entry hentry
  rw [entryAt?, slice?_buffer (Nat.le_of_lt hstands.name_start_lt) hstands.name_stop_le,
    slice?_buffer hstands.value_start_le hstands.value_stop_le]
  rfl

theorem LaidOut.headersAt?_eq (h : parser.LaidOut) :
    parser.headersAt? = some parser.headers := by
  have hentries := @LaidOut.entryAt?_eq _ h
  rw [headersAt?, headers]
  generalize parser.entries = entries at hentries
  induction entries with
  | nil => rfl
  | cons entry later ih =>
      rw [List.mapM_cons, hentries List.mem_cons_self,
        ih fun hlater => hentries (List.mem_cons_of_mem _ hlater)]
      rfl

theorem LaidOut.valueOfAt?_eq (h : parser.LaidOut) (p : Bytes → Bool) :
    parser.valueOfAt? p = some (parser.valueOf? p) := by
  have hentries := @LaidOut.entryAt?_eq _ h
  rw [valueOfAt?, valueOf?, headers]
  generalize parser.entries = entries at hentries
  induction entries with
  | nil => rfl
  | cons entry later ih =>
      rw [List.findSomeM?, hentries List.mem_cons_self, List.map_cons, List.find?_cons]
      cases hname : p (parser.entryName entry) with
      | true => simp [hname]
      | false =>
          simp only [Option.bind_eq_bind, Option.bind_some, hname, Option.pure_def,
            Bool.false_eq_true, if_false]
          exact ih fun hlater => hentries (List.mem_cons_of_mem _ hlater)

/-- A span behind the buffer would be found out. -/
example : ({ new false with entries := [⟨⟨0, 1⟩, ⟨2, 3⟩, false⟩] } : Parser).headersAt? = none := by
  decide

/-- After every history of feeds and resets the parser is laid out, and the line which is not
complete is what lies behind the last line feed.  So no position which is read at, while
bytes are taken in or fields are handed out, is out of range, and what is handed out has
the form of a name or of a value in one line. -/
theorem positions_in_range (hasStartLine : Bool) (history : List Call) :
    let parser := (new hasStartLine).run history
    parser.LaidOut ∧
      (parser.lineStart ≤ parser.buffer.length ∧
        (parser.isDone = false → Byte.lf ∉ parser.buffer.drop parser.lineStart) ∧
        (parser.isDone = true → parser.lineStart = parser.buffer.length) ∧
        parser.lineCount = parser.buffer.count Byte.lf) ∧
      (parser.startLineAt? = some parser.startLine ∧
        parser.headersAt? = some parser.headers ∧
        (∀ p, parser.valueOfAt? p = some (parser.valueOf? p)) ∧
        ∀ data, parser.feedAt? data = some (parser.feed data)) ∧
      ∀ entry ∈ parser.entries,
        IsFieldName (parser.entryName entry) ∧ Byte.lf ∉ parser.entryValue entry ∧
          (entry.folded = true → Byte.cr ∉ parser.entryValue entry) := by
  intro parser
  have h : parser.LaidOut := (laidOut_new hasStartLine).run history
  have hclean : Byte.lf ∉ parser.unfinished.reverse := by simpa using h.unfinished
  refine ⟨h, ⟨?_, fun _ => ?_, fun hdone => ?_, ?_⟩,
    ⟨h.startLineAt?_eq, h.headersAt?_eq, h.valueOfAt?_eq, h.feedAt?_eq⟩,
    fun entry hentry => ⟨(h.stands entry hentry).isFieldName, h.notMem_entryValue hentry⟩⟩
  · rw [buffer, List.length_append]
    exact Nat.le_add_right _ _
  · rwa [buffer, lineStart, List.drop_left]
  · rw [buffer, h.done hdone, List.reverse_nil, List.append_nil, lineStart]
  · rw [buffer, List.count_append, List.count_eq_zero.mpr hclean]
    exact h.lineCount

end Parser

end Header

end StreamingHttp
