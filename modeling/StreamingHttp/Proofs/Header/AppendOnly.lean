import StreamingHttp.Proofs.Header.Layout
import Mathlib.Data.List.Infix

/-!
# What was read stays

Names and values are spans of a buffer which grows, and a later line may change an entry.
But all entries except the last one lie before the line which is read, and a line changes the
last one only by continuing it.  `Parser.Grows` lists what a line does to the fields:

* nothing: it is the start line, the blank line, malformed, or blanks which continue a field;
* it adds a field behind all others;
* it continues the last field with a text, and then only the value of this field changes.

A field is open as long as nothing but continuations follows it.  So what a line does to the
last field decides what may become of it, and the rest is by induction on the bytes and on
the lines.
-/

namespace StreamingHttp

namespace Header

namespace Parser

variable {parser middle next : Parser} {line : Bytes}

/-- No line changes the fields which are there. -/
def Settled (parser : Parser) : Prop :=
  parser.isDone = true ∨ parser.foldTarget = none

/-- What a line does to the fields. -/
inductive Grows (line : Bytes) (parser next : Parser) : Prop
  | kept (hheaders : next.headers = parser.headers)
      (hsettled : parser.Settled ∨ isContinuation (content line) = false → next.Settled)
  | added (hkind : isContinuation (content line) = false)
      (hheaders : ∃ header, next.headers = parser.headers ++ [header])
  | continued {before : List (Bytes × Bytes)} {name value : Bytes}
      (hkind : isContinuation (content line) = true)
      (htext : Bytes.trim Byte.isBlank (content line) ≠ [])
      (hopen : ¬ parser.Settled) (hbefore : parser.headers = before ++ [(name, value)])
      (hheaders : ∃ longer, next.headers = before ++ [(name, longer)])

/-- What was read before stays, except for the value of the last field. -/
structure Extends (parser next : Parser) : Prop where
  faults : parser.faults <+: next.faults
  names : parser.headers.map Prod.fst <+: next.headers.map Prod.fst
  complete : parser.headers.dropLast <+: next.headers
  startLine : parser.phase ≠ .startLine →
    next.phase ≠ .startLine ∧ next.startLine = parser.startLine

/-! ### One line -/

/-- The fields are the same, however long the block is. -/
theorem LaidOut.headers_taken (h : parser.LaidOut) (line : Bytes) :
    (parser.taken line).headers = parser.headers := by
  refine List.map_congr_left fun entry hentry => ?_
  have hstands := h.stands entry hentry
  have hname : (parser.taken line).entryName entry = parser.entryName entry :=
    Span.slice_append hstands.name_stop_le line
  have hvalue : (parser.taken line).slice entry.value = parser.slice entry.value :=
    Span.slice_append hstands.value_stop_le line
  rw [hname, entryValue, entryValue, hvalue]

/-- A new field is behind all others. -/
theorem headers_addField (parser : Parser) (name value : Span) :
    (parser.addField name value).headers =
      parser.headers ++ [(parser.slice name, parser.slice value)] :=
  List.map_append

/-- A continuation with a text changes the last value, if there is a field to continue. -/
theorem LaidOut.grows_addContinuation (h : parser.LaidOut) (hopen : parser.isDone = false)
    (hkind : isContinuation (content line) = true) {content : Span} {after : Bytes}
    (hmarks : content.Marks (parser.block ++ line)
      (Bytes.trim Byte.isBlank (Header.content line)) after) :
    Grows line parser ((parser.taken line).addContinuation content) := by
  have htaken := h.headers_taken line
  unfold Parser.addContinuation
  cases htarget : (parser.taken line).foldTarget with
  | none => exact .kept htaken fun _ => .inr rfl
  | some index =>
      have hunsettled : ¬ parser.Settled := by
        have hfold : parser.foldTarget = some index := htarget
        simp [Settled, hopen, hfold]
      dsimp only
      split
      · -- Blanks alone add nothing, and the field stays open.
        refine .kept htaken ?_
        rintro (hsettled | hother)
        · exact absurd hsettled hunsettled
        · rw [hkind] at hother
          cases hother
      · next htext =>
          rw [hmarks.isEmpty_eq] at htext
          obtain ⟨before, last, hlast, rfl⟩ := h.exists_target htarget
          have hentries : (parser.taken line).entries = before ++ [last] := hlast
          rw [hentries, modify_last]
          rw [headers, hentries, List.map_append] at htaken
          refine .continued hkind (by simpa using htext) hunsettled htaken.symm
            ⟨(parser.taken line).entryValue (last.extend content), ?_⟩
          rw [headers, List.map_append, List.map_singleton, entryName, Entry.extend_name]
          rfl

/-- What a line does to the fields. -/
theorem LaidOut.grows_addLine (h : parser.LaidOut) (hopen : parser.isDone = false)
    (hline : Bytes.IsLine line) : Grows line parser (parser.addLine line) := by
  have htaken := h.headers_taken line
  have hcuts := Line.cuts_read hline (parser.phase == .startLine) parser.block
  show Grows line parser ((parser.taken line).act
    (Line.read (parser.phase == .startLine) parser.block.length line))
  generalize Line.read (parser.phase == .startLine) parser.block.length line = read at hcuts ⊢
  cases hcuts with
  | blank => exact .kept htaken fun _ => .inl rfl
  | start hexpect _ =>
      -- There is no field before the start line, so none is open.
      have hentries := h.fresh (by simpa using hexpect)
      refine .kept htaken fun _ => .inr ?_
      show parser.foldTarget = none
      cases htarget : parser.foldTarget with
      | none => rfl
      | some index =>
          have hlength := h.foldTarget index htarget
          rw [hentries] at hlength
          cases hlength
  | continuation _ hkind _ hmarks => exact h.grows_addContinuation hopen hkind hmarks
  | @field nameSpan valueSpan _ _ _ _ _ hkind =>
      have hadded := headers_addField (parser.taken line) nameSpan valueSpan
      rw [htaken] at hadded
      exact .added hkind ⟨_, hadded⟩
  | malformed => exact .kept htaken fun _ => .inr rfl

/-- A line lists one fault at most, behind all others. -/
theorem faults_act (parser : Parser) (line : Line) :
    parser.faults <+: (parser.act line).faults := by
  cases line with
  | continuation content =>
      rcases parser.addContinuation_eq content with h | ⟨entries, h⟩
      · rw [act, h]
        exact List.prefix_append _ _
      · rw [act, h]
  | malformed kind => exact List.prefix_append _ _
  | _ => exact List.prefix_rfl

/-- Behind the start line no line is one. -/
theorem start_act {line : Line} (hphase : parser.phase ≠ .startLine)
    (hline : ∀ content, line ≠ .start content) :
    (parser.act line).phase ≠ .startLine ∧
      (parser.act line).startSpan = parser.startSpan := by
  cases line with
  | start content => exact absurd rfl (hline content)
  | continuation content =>
      rcases parser.addContinuation_eq content with h | ⟨entries, h⟩
      all_goals rw [act, h]; exact ⟨hphase, rfl⟩
  | blank => exact ⟨Phase.noConfusion, rfl⟩
  | _ => exact ⟨hphase, rfl⟩

/-- A line which is not the start line leaves it as it is. -/
theorem LaidOut.start_addLine (h : parser.LaidOut) (hline : Bytes.IsLine line)
    (hphase : parser.phase ≠ .startLine) :
    (parser.addLine line).phase ≠ .startLine ∧
      (parser.addLine line).startLine = parser.startLine := by
  have hcuts := Line.cuts_read hline (parser.phase == .startLine) parser.block
  have hnone : ∀ content,
      Line.read (parser.phase == .startLine) parser.block.length line ≠ .start content := by
    intro content hread
    rw [hread] at hcuts
    cases hcuts with
    | start hexpect _ => exact hphase (by simpa using hexpect)
  obtain ⟨hnext, hspan⟩ := @start_act (parser.taken line) _ hphase hnone
  refine ⟨hnext, ?_⟩
  rw [startLine, slice, block_addLine]
  show Span.slice ((parser.taken line).act _).startSpan _ = _
  rw [hspan]
  exact Span.slice_append h.startStop_le line

/-! ### From line to line -/

/-- Bytes of a line which is not complete change nothing of what was read. -/
theorem extends_unfinished (parser : Parser) (unfinished : Bytes) :
    parser.Extends { parser with unfinished } where
  faults := List.prefix_rfl
  names := List.prefix_rfl
  complete := List.dropLast_prefix _
  startLine hphase := ⟨hphase, rfl⟩

theorem Extends.refl (parser : Parser) : parser.Extends parser :=
  parser.extends_unfinished parser.unfinished

theorem Extends.trans (h : parser.Extends middle) (h' : middle.Extends next) :
    parser.Extends next where
  faults := h.faults.trans h'.faults
  names := h.names.trans h'.names
  complete := by
    -- All but the last field are among all but the last of the fields behind them.
    have hlength := h.names.length_le
    rw [List.length_map, List.length_map] at hlength
    have hbefore : parser.headers.dropLast <+: middle.headers.dropLast := by
      apply List.prefix_of_prefix_length_le h.complete (List.dropLast_prefix _)
      rw [List.length_dropLast, List.length_dropLast]
      omega
    exact hbefore.trans h'.complete
  startLine hphase := by
    obtain ⟨hmiddle, hsame⟩ := h.startLine hphase
    obtain ⟨hnext, hlast⟩ := h'.startLine hmiddle
    exact ⟨hnext, hlast.trans hsame⟩

/-- Names stay, and so do the values of all fields but the last one. -/
theorem Grows.headers (h : Grows line parser next) :
    parser.headers.map Prod.fst <+: next.headers.map Prod.fst ∧
      parser.headers.dropLast <+: next.headers := by
  cases h with
  | kept hheaders =>
      rw [hheaders]
      exact ⟨List.prefix_rfl, List.dropLast_prefix _⟩
  | added _ hadded =>
      obtain ⟨header, hheaders⟩ := hadded
      rw [hheaders, List.map_append]
      exact ⟨List.prefix_append _ _, (List.dropLast_prefix _).trans (List.prefix_append _ _)⟩
  | continued _ _ _ hbefore hcontinued =>
      obtain ⟨longer, hheaders⟩ := hcontinued
      rw [hbefore, hheaders, List.dropLast_concat, List.map_append, List.map_append]
      exact ⟨List.prefix_rfl, List.prefix_append _ _⟩

theorem LaidOut.extends_addLine (h : parser.LaidOut) (hopen : parser.isDone = false)
    (hline : Bytes.IsLine line) : parser.Extends (parser.addLine line) where
  faults := faults_act (parser.taken line) _
  names := (h.grows_addLine hopen hline).headers.1
  complete := (h.grows_addLine hopen hline).headers.2
  startLine := h.start_addLine hline

/-! ### From byte to byte -/

theorem LaidOut.extends_feed (h : parser.LaidOut) (data : Bytes) :
    parser.Extends (parser.feed data).2 := by
  induction data generalizing parser with
  | nil => exact .refl parser
  | cons b data ih =>
      unfold Parser.feed
      split
      · exact .refl parser
      · next hopen =>
          have hopen : parser.isDone = false := by simpa using hopen
          refine Extends.trans ?_ (ih (h.push hopen b))
          rcases h.push_eq b with ⟨line, hline, hpush⟩ | ⟨unfinished, -, hpush⟩
          · rw [hpush]
            exact h.extends_addLine hopen hline
          · rw [hpush]
            exact parser.extends_unfinished unfinished

/-- Fields behind which another one is added stay as they are. -/
theorem LaidOut.headers_isPrefix_of_added (h : next.LaidOut)
    (hadded : ∃ header, next.headers = parser.headers ++ [header]) (data : Bytes) :
    parser.headers <+: (next.feed data).2.headers := by
  obtain ⟨header, hheaders⟩ := hadded
  have hcomplete := (h.extends_feed data).complete
  rwa [hheaders, List.dropLast_concat] at hcomplete

/-- Fields which are settled stay as they are. -/
theorem LaidOut.headers_isPrefix_of_settled (h : parser.LaidOut) (hsettled : parser.Settled)
    (data : Bytes) : parser.headers <+: (parser.feed data).2.headers := by
  induction data generalizing parser with
  | nil => exact List.prefix_rfl
  | cons b data ih =>
      unfold Parser.feed
      split
      · exact List.prefix_rfl
      · next hopen =>
          have hopen : parser.isDone = false := by simpa using hopen
          have hlaid := h.push hopen b
          rcases h.push_eq b with ⟨line, hline, hpush⟩ | ⟨unfinished, -, hpush⟩
          · rw [hpush] at hlaid ⊢
            cases h.grows_addLine hopen hline with
            | kept hheaders hkeep =>
                rw [← hheaders]
                exact ih hlaid (hkeep (.inl hsettled))
            | added _ hadded => exact hlaid.headers_isPrefix_of_added hadded data
            | continued _ _ hnot => exact absurd hsettled hnot
          · rw [hpush] at hlaid ⊢
            exact ih hlaid hsettled

/-! ### The last field -/

/-- Behind a line which continues nothing the fields before it are settled. -/
theorem LaidOut.headers_isPrefix_of_line (h : parser.LaidOut) (hopen : parser.isDone = false)
    (hline : Bytes.IsLine line) (hkind : isContinuation (content line) = false)
    (rest : Bytes) : parser.headers <+: ((parser.addLine line).feed rest).2.headers := by
  have hlaid := h.addLine hline
  cases h.grows_addLine hopen hline with
  | kept hheaders hsettled =>
      rw [← hheaders]
      exact hlaid.headers_isPrefix_of_settled (hsettled (.inr hkind)) rest
  | added _ hadded => exact hlaid.headers_isPrefix_of_added hadded rest
  | continued hcontinues =>
      rw [hkind] at hcontinues
      cases hcontinues

/-- Continuations without a text keep the fields. -/
theorem LaidOut.headers_of_blank_continuation (h : parser.LaidOut)
    (hopen : parser.isDone = false) (hline : Bytes.IsLine line)
    (hkind : isContinuation (content line) = true)
    (htext : Bytes.trim Byte.isBlank (content line) = []) :
    (parser.addLine line).headers = parser.headers := by
  cases h.grows_addLine hopen hline with
  | kept hheaders => exact hheaders
  | added hother =>
      rw [hkind] at hother
      cases hother
  | continued _ hcontent => exact absurd htext hcontent

/-- The fields stay if no continuation with a text comes before all other lines. -/
theorem LaidOut.headers_isPrefix_feed_lines {lines : List Bytes} {tail : Bytes}
    (hlines : ∀ line ∈ lines, Bytes.IsLine line) (htail : Byte.lf ∉ tail)
    (h : parser.LaidOut) (hopen : parser.isDone = false) (hunfinished : parser.unfinished = [])
    (hquiet : ∀ line ∈ lines.takeWhile fun line => isContinuation (content line),
      Bytes.trim Byte.isBlank (content line) = []) :
    parser.headers <+: (parser.feed (lines.flatten ++ tail)).2.headers := by
  induction lines generalizing parser with
  | nil =>
      have hfeed := feed_append_of_notMem hopen htail []
      rw [List.append_nil] at hfeed
      rw [List.flatten_nil, List.nil_append, hfeed]
      exact List.prefix_rfl
  | cons line later ih =>
      obtain ⟨hline, hlater⟩ := List.forall_mem_cons.mp hlines
      rw [List.flatten_cons, List.append_assoc, feed_line_append hopen hunfinished hline]
      cases hkind : isContinuation (content line) with
      | false => exact h.headers_isPrefix_of_line hopen hline hkind _
      | true =>
          -- The last field is still open, and so are the lines which may continue it.
          rw [List.takeWhile_cons, if_pos hkind] at hquiet
          obtain ⟨htext, hquiet⟩ := List.forall_mem_cons.mp hquiet
          rw [← h.headers_of_blank_continuation hopen hline hkind htext]
          cases hdone : (parser.addLine line).isDone with
          | true => rw [feed_of_isDone hdone]
          | false =>
              exact ih hlater (h.addLine hline) hdone (unfinished_addLine parser line) hquiet

/-- Whatever a parser is fed after any history, its faults and the names of its fields stay,
and so do the values of all fields but the last one.  The last value stays too unless a
continuation with a text comes before all other lines which are completed.  A start line
stays, and a parser which is done hands back everything and changes in nothing. -/
theorem feed_keeps_what_was_read (hasStartLine : Bool) (history : List Call) (data : Bytes) :
    let parser := (new hasStartLine).run history
    let next := (parser.feed data).2
    parser.faults <+: next.faults ∧
      parser.headers.map Prod.fst <+: next.headers.map Prod.fst ∧
      parser.headers.dropLast <+: next.headers ∧
      (parser.headers <+: next.headers ∨
        ∃ line ∈ (Bytes.lines (parser.unfinished.reverse ++ data)).takeWhile
            fun line => isContinuation (content line),
          Bytes.trim Byte.isBlank (content line) ≠ []) ∧
      (parser.phase ≠ .startLine → next.startLine = parser.startLine) ∧
      (parser.isDone = true → parser.feed data = (data, parser)) := by
  intro parser next
  have h : parser.LaidOut := (laidOut_new hasStartLine).run history
  have hextends := h.extends_feed data
  refine ⟨hextends.faults, hextends.names, hextends.complete, ?_,
    fun hphase => (hextends.startLine hphase).2, fun hdone => feed_of_isDone hdone data⟩
  rw [or_iff_not_imp_right]
  intro hquiet
  push Not at hquiet
  cases hopen : parser.isDone with
  | true =>
      have hnext : next = parser := congrArg Prod.snd (feed_of_isDone hopen data)
      rw [hnext]
  | false =>
      obtain ⟨hlines, htail, htext⟩ := Bytes.exists_lines (parser.unfinished.reverse ++ data)
      have hlaid : LaidOut { parser with unfinished := [] } :=
        { h with unfinished := List.not_mem_nil, done := fun _ => rfl }
      have hprefix := hlaid.headers_isPrefix_feed_lines hlines htail hopen rfl hquiet
      rw [← htext, ← h.feed_eq hopen data] at hprefix
      exact hprefix

/-- A field which a later feed continues: the last value changes, and the bytes of it which
were there before are rendered anew. -/
example :
    let parser := (new false).run [.feed (Utf8.ofString "A: b\r\n c \r\n")]
    parser.headers = [(Utf8.ofString "A", Utf8.ofString "b c")] ∧
      (parser.feed (Utf8.ofString "\td\r\nE:\r\n")).2.headers =
        [(Utf8.ofString "A", Utf8.ofString "b c d"), (Utf8.ofString "E", [])] := by
  decide +kernel

end Parser

end Header

end StreamingHttp
