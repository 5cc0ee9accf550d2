import StreamingHttp.Proofs.Header.BlockReading
import StreamingHttp.Proofs.Header.LineSpans

/-!
# Where the fields of a block lie

The parser keeps every name and value as a span of its buffer, and the buffer grows.  This
module is about where the spans lie, for a block of any bytes:

* `Entry.Stands`: an entry is a name, a colon at least, and a value within the block;
* `Parser.LaidOut`: the entries stand one behind the other, only the last one may still be
  extended, and the lines which are faulty are listed in their order.

A line with a field puts an entry behind all others.  A continuation moves the end of the
last value into its own line, or all of an empty one, and both lie behind all other entries.
No line does anything else to an entry, so `LaidOut` is kept by every line, from that by
every byte and every feed, and by induction it holds after every history.  So whatever was
fed, no value holds a line feed.
-/

namespace StreamingHttp

namespace Header

/-- An entry is a name, a colon at least, and a value.  A value which is not folded lies in
one line. -/
structure Entry.Stands (block : Bytes) (entry : Entry) : Prop where
  name_start_lt : entry.name.start < entry.name.stop
  name_stop_lt : entry.name.stop < entry.value.start
  value_start_le : entry.value.start ≤ entry.value.stop
  value_stop_le : entry.value.stop ≤ block.length
  isFieldName : IsFieldName (entry.name.slice block)
  clean : entry.folded = false → Byte.lf ∉ entry.value.slice block

namespace Parser

/-- Where the line starts which is not complete yet. -/
def lineStart (parser : Parser) : Nat :=
  parser.block.length

/-- Where everything lies that a parser has read. -/
structure LaidOut (parser : Parser) : Prop where
  unfinished : Byte.lf ∉ parser.unfinished
  done : parser.isDone = true → parser.unfinished = []
  lineCount : parser.lineCount = parser.block.count Byte.lf
  start_le : parser.startSpan.start ≤ parser.startSpan.stop
  startStop_le : parser.startSpan.stop ≤ parser.block.length
  /-- No field comes before the start line. -/
  fresh : parser.phase = .startLine → parser.entries = []
  stands : ∀ entry ∈ parser.entries, entry.Stands parser.block
  ordered : parser.entries.Pairwise fun entry next => entry.value.stop ≤ next.name.start
  /-- The last entry is the only one which may be extended. -/
  foldTarget : ∀ index ∈ parser.foldTarget, index + 1 = parser.entries.length
  faultOrder : parser.faults.Pairwise fun fault next => fault.line < next.line
  faultLine_le : ∀ fault ∈ parser.faults, fault.line ≤ parser.lineCount

end Parser

/-! ### Entries -/

namespace Entry

variable {entry : Entry} {block : Bytes}

theorem Stands.name_stop_le (h : entry.Stands block) : entry.name.stop ≤ block.length := by
  have := h.name_stop_lt
  have := h.value_start_le
  have := h.value_stop_le
  omega

/-- An entry stands where it did when the block grows. -/
theorem Stands.append (h : entry.Stands block) (line : Bytes) :
    entry.Stands (block ++ line) where
  name_start_lt := h.name_start_lt
  name_stop_lt := h.name_stop_lt
  value_start_le := h.value_start_le
  value_stop_le := by
    have := h.value_stop_le
    rw [List.length_append]
    omega
  isFieldName := by
    rw [Span.slice_append h.name_stop_le]
    exact h.isFieldName
  clean := by
    rw [Span.slice_append h.value_stop_le]
    exact h.clean

theorem extend_name (entry : Entry) (content : Span) :
    (entry.extend content).name = entry.name := by
  unfold extend
  split
  · rfl
  · rfl

/-- An entry stands with a continuation behind its value. -/
theorem Stands.extend (h : entry.Stands block) {content : Span} {text after : Bytes}
    (hbehind : entry.value.stop ≤ content.start) (hmarks : content.Marks block text after)
    (hclean : Byte.lf ∉ text) : (entry.extend content).Stands block := by
  have hstart := hmarks.start_le
  have hvalue := h.value_start_le
  have hname := h.name_stop_lt
  unfold Entry.extend
  split
  · -- The continuation takes the place of an empty value.
    refine ⟨h.name_start_lt, ?_, hstart, hmarks.stop_le, h.isFieldName, fun _ => ?_⟩
    · show entry.name.stop < content.start
      omega
    · show Byte.lf ∉ content.slice block
      rwa [hmarks.slice_eq]
  · refine ⟨h.name_start_lt, h.name_stop_lt, ?_, hmarks.stop_le, h.isFieldName, ?_⟩
    · show entry.value.start ≤ content.stop
      omega
    · intro hfolded
      cases hfolded

end Entry

/-! ### What a line does -/

namespace Parser

variable {parser : Parser}

/-- The last entry, if a continuation may extend one. -/
theorem LaidOut.exists_target (h : parser.LaidOut) {index : Nat}
    (htarget : parser.foldTarget = some index) :
    ∃ before last, parser.entries = before ++ [last] ∧ index = before.length := by
  have hlength := h.foldTarget index htarget
  rcases List.eq_nil_or_concat' parser.entries with hnil | ⟨before, last, hlast⟩
  · rw [hnil, List.length_nil] at hlength
    omega
  · rw [hlast, List.length_append, List.length_singleton] at hlength
    exact ⟨before, last, hlast, by omega⟩

/-- Changing the last of some entries. -/
theorem modify_last {before : List Entry} {last : Entry} (change : Entry → Entry) :
    (before ++ [last]).modify before.length change = before ++ [change last] := by
  rw [List.modify_eq_take_drop]
  simp

theorem unfinished_addLine (parser : Parser) (line : Bytes) :
    (parser.addLine line).unfinished = [] :=
  (bytes_act (parser.taken line) _).2

theorem block_addLine (parser : Parser) (line : Bytes) :
    (parser.addLine line).block = parser.block ++ line :=
  (bytes_act (parser.taken line) _).1

/-- A line is taken in, before anything is read in it. -/
theorem LaidOut.taken (h : parser.LaidOut) {line : Bytes} (hline : Bytes.IsLine line) :
    (parser.taken line).LaidOut where
  unfinished := List.not_mem_nil
  done _ := rfl
  lineCount := by
    obtain ⟨body, hbody, rfl⟩ := hline
    show parser.lineCount + 1 = (parser.block ++ (body ++ [Byte.lf])).count Byte.lf
    rw [h.lineCount, List.count_append, List.count_append, List.count_eq_zero.mpr hbody]
    simp
  start_le := h.start_le
  startStop_le := by
    have := h.startStop_le
    show parser.startSpan.stop ≤ (parser.block ++ line).length
    rw [List.length_append]
    omega
  fresh := h.fresh
  stands entry hentry := (h.stands entry hentry).append line
  ordered := h.ordered
  foldTarget := h.foldTarget
  faultOrder := h.faultOrder
  faultLine_le fault hfault := Nat.le_succ_of_le (h.faultLine_le fault hfault)

/-- The line read last is listed behind all faults before it. -/
theorem LaidOut.addFault (h : parser.LaidOut)
    (hearlier : ∀ fault ∈ parser.faults, fault.line < parser.lineCount) (kind : FaultKind) :
    (parser.addFault kind).LaidOut :=
  { h with
    foldTarget := by
      rintro index ⟨⟩
    faultOrder := by
      refine List.pairwise_append.mpr ⟨h.faultOrder, List.pairwise_singleton _ _, ?_⟩
      intro fault hfault next hnext
      rw [List.mem_singleton.mp hnext]
      exact hearlier fault hfault
    faultLine_le := by
      intro fault hfault
      rcases List.mem_append.mp hfault with hmem | hmem
      · exact h.faultLine_le fault hmem
      · rw [List.mem_singleton.mp hmem]
        exact Nat.le_refl _ }

/-- A field is put behind all other entries, and it is the one to extend. -/
theorem LaidOut.addField (h : parser.LaidOut) (hphase : parser.phase ≠ .startLine)
    {name value : Span} (hstands : Entry.Stands parser.block ⟨name, value, false⟩)
    (hbehind : ∀ entry ∈ parser.entries, entry.value.stop ≤ name.start) :
    (parser.addField name value).LaidOut :=
  { h with
    fresh := fun hstart => absurd hstart hphase
    stands := by
      intro entry hentry
      rcases List.mem_append.mp hentry with hmem | hmem
      · exact h.stands entry hmem
      · rw [List.mem_singleton.mp hmem]
        exact hstands
    ordered := by
      refine List.pairwise_append.mpr ⟨h.ordered, List.pairwise_singleton _ _, ?_⟩
      intro entry hentry next hnext
      rw [List.mem_singleton.mp hnext]
      exact hbehind entry hentry
    foldTarget := by
      rintro index ⟨⟩
      show _ = (parser.entries ++ [_]).length
      rw [List.length_append, List.length_singleton] }

/-- A continuation extends the last entry, which may become longer and nothing else. -/
theorem LaidOut.addContinuation (h : parser.LaidOut)
    (hearlier : ∀ fault ∈ parser.faults, fault.line < parser.lineCount) {content : Span}
    {text after : Bytes} (hmarks : content.Marks parser.block text after)
    (hclean : Byte.lf ∉ text)
    (hbehind : ∀ entry ∈ parser.entries, entry.value.stop ≤ content.start) :
    (parser.addContinuation content).LaidOut := by
  unfold Parser.addContinuation
  cases htarget : parser.foldTarget with
  | none => exact h.addFault hearlier _
  | some index =>
      dsimp only
      split
      · exact h
      obtain ⟨before, last, hlast, rfl⟩ := h.exists_target htarget
      have hstands := h.stands
      have hordered := h.ordered
      rw [hlast] at hstands hordered hbehind
      obtain ⟨hbefore, -, hpairs⟩ := List.pairwise_append.mp hordered
      refine { h with fresh := ?_, stands := ?_, ordered := ?_, foldTarget := ?_ }
      · intro hphase
        rw [h.fresh hphase] at hlast
        simp at hlast
      · show ∀ entry ∈ parser.entries.modify _ _, entry.Stands parser.block
        rw [hlast, modify_last]
        intro entry hentry
        rcases List.mem_append.mp hentry with hmem | hmem
        · exact hstands entry (List.mem_append_left _ hmem)
        · rw [List.mem_singleton.mp hmem]
          exact (hstands last (by simp)).extend (hbehind last (by simp)) hmarks hclean
      · show (parser.entries.modify _ _).Pairwise _
        rw [hlast, modify_last]
        refine List.pairwise_append.mpr ⟨hbefore, List.pairwise_singleton _ _, ?_⟩
        intro entry hentry next hnext
        rw [List.mem_singleton.mp hnext, Entry.extend_name]
        exact hpairs entry hentry last (by simp)
      · intro other hother
        show _ = (parser.entries.modify _ _).length
        rw [List.length_modify]
        exact h.foldTarget other (htarget ▸ hother)

/-- Nothing is read in a line but what its bytes say. -/
theorem LaidOut.addLine (h : parser.LaidOut) {line : Bytes} (hline : Bytes.IsLine line) :
    (parser.addLine line).LaidOut := by
  have htaken := h.taken hline
  have hearlier : ∀ fault ∈ (parser.taken line).faults,
      fault.line < (parser.taken line).lineCount :=
    fun fault hfault => Nat.lt_succ_of_le (h.faultLine_le fault hfault)
  have hbehind : ∀ entry ∈ (parser.taken line).entries,
      entry.value.stop ≤ parser.block.length :=
    fun entry hentry => (h.stands entry hentry).value_stop_le
  have hcuts := Line.cuts_read hline (parser.phase == .startLine) parser.block
  show ((parser.taken line).act
    (Line.read (parser.phase == .startLine) parser.block.length line)).LaidOut
  generalize Line.read (parser.phase == .startLine) parser.block.length line = read at hcuts ⊢
  cases hcuts with
  | blank => exact { htaken with done := fun _ => rfl, fresh := nofun }
  | start _ hmarks =>
      exact { htaken with
        done := fun _ => rfl
        start_le := hmarks.start_le
        startStop_le := hmarks.stop_le
        fresh := nofun }
  | continuation _ _ hstart hmarks =>
      refine htaken.addContinuation hearlier hmarks (fun hmem => ?_)
        fun entry hentry => (hbehind entry hentry).trans hstart
      exact notMem_content_lf hline (Bytes.mem_of_mem_trim hmem)
  | field hexpect _ hname hvalue hstart hcolon hnameMarks hvalueMarks =>
      have hphase : parser.phase ≠ .startLine := by simpa using hexpect
      refine htaken.addField hphase
        ⟨?_, hcolon, hvalueMarks.start_le, hvalueMarks.stop_le, ?_, ?_⟩
        fun entry hentry => (hbehind entry hentry).trans (Nat.le_of_eq hstart.symm)
      · -- A name is not empty, so neither is its span.
        obtain ⟨before, -, hspan⟩ := hnameMarks
        have := List.length_pos_iff.mpr hname.ne_nil
        rw [hspan]
        exact Nat.lt_add_of_pos_right this
      · show IsFieldName (Span.slice _ (parser.block ++ line))
        rwa [hnameMarks.slice_eq]
      · intro _
        show Byte.lf ∉ Span.slice _ (parser.block ++ line)
        rwa [hvalueMarks.slice_eq]
  | malformed => exact htaken.addFault hearlier _

/-! ### Every history -/

/-- A byte completes a line, or it is one more byte of the line. -/
theorem LaidOut.push_eq (h : parser.LaidOut) (b : UInt8) :
    (∃ line, Bytes.IsLine line ∧ parser.push b = parser.addLine line) ∨
      ∃ unfinished, Byte.lf ∉ unfinished ∧ parser.push b = { parser with unfinished } := by
  unfold Parser.push
  split
  · next hb =>
      refine .inl ⟨_, ⟨parser.unfinished.reverse, by simpa using h.unfinished, ?_⟩, rfl⟩
      rw [hb, List.reverse_cons]
  · next hb =>
      refine .inr ⟨_, ?_, rfl⟩
      rw [List.mem_cons, not_or]
      exact ⟨Ne.symm hb, h.unfinished⟩

theorem LaidOut.push (h : parser.LaidOut) (hopen : parser.isDone = false) (b : UInt8) :
    (parser.push b).LaidOut := by
  rcases h.push_eq b with ⟨line, hline, hpush⟩ | ⟨unfinished, hclean, hpush⟩
  · rw [hpush]
    exact h.addLine hline
  · rw [hpush]
    refine { h with unfinished := hclean, done := fun hdone => ?_ }
    have : parser.isDone = true := hdone
    rw [hopen] at this
    cases this

theorem LaidOut.feed (h : parser.LaidOut) (data : Bytes) : (parser.feed data).2.LaidOut := by
  induction data generalizing parser with
  | nil => exact h
  | cons b data ih =>
      unfold Parser.feed
      split
      · exact h
      · next hopen => exact ih (h.push (by simpa using hopen) b)

/-- A line which is not complete may be fed once more. -/
theorem LaidOut.feed_eq (h : parser.LaidOut) (hopen : parser.isDone = false) (data : Bytes) :
    parser.feed data =
      Parser.feed { parser with unfinished := [] } (parser.unfinished.reverse ++ data) := by
  have hclean : Byte.lf ∉ parser.unfinished.reverse := by simpa using h.unfinished
  rw [feed_append_of_notMem (by exact hopen) hclean, List.reverse_reverse, List.append_nil]

theorem laidOut_new (hasStartLine : Bool) : (new hasStartLine).LaidOut where
  unfinished := List.not_mem_nil
  done _ := rfl
  lineCount := rfl
  start_le := Nat.le_refl _
  startStop_le := Nat.le_refl _
  fresh _ := rfl
  stands := by simp [new]
  ordered := List.Pairwise.nil
  foldTarget := by
    rintro index ⟨⟩
  faultOrder := List.Pairwise.nil
  faultLine_le := by simp [new]

theorem LaidOut.run (h : parser.LaidOut) (history : List Call) :
    (parser.run history).LaidOut := by
  induction history generalizing parser with
  | nil => exact h
  | cons call later ih =>
      refine ih ?_
      cases call with
      | feed data => exact h.feed data
      | reset hasStartLine => exact laidOut_new hasStartLine

/-! ### Values -/

/-- No line end comes out of a folded value, and no line feed out of any value. -/
theorem LaidOut.notMem_entryValue (h : parser.LaidOut) {entry : Entry}
    (hentry : entry ∈ parser.entries) :
    Byte.lf ∉ parser.entryValue entry ∧
      (entry.folded = true → Byte.cr ∉ parser.entryValue entry) := by
  rw [entryValue]
  cases hfolded : entry.folded with
  | true => exact ⟨notMem_unfold (by decide) _, fun _ => notMem_unfold (by decide) _⟩
  | false => exact ⟨(h.stands entry hentry).clean hfolded, fun htrue => by cases htrue⟩

/-- No value has a line feed, whichever field it is looked up by. -/
theorem LaidOut.notMem_of_valueOf?_eq_some (h : parser.LaidOut) {p : Bytes → Bool}
    {value : Bytes} (hvalue : parser.valueOf? p = some value) : Byte.lf ∉ value := by
  rw [valueOf?, headers, Option.map_eq_some_iff] at hvalue
  obtain ⟨header, hfind, rfl⟩ := hvalue
  obtain ⟨entry, hentry, rfl⟩ := List.mem_map.mp (List.mem_of_find?_eq_some hfind)
  exact (h.notMem_entryValue hentry).1

end Parser

end Header

end StreamingHttp
