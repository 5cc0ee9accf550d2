import StreamingHttp.Proofs.Entity.BlockReading
import StreamingHttp.Proofs.Header.BlockReading

/-!
# Where a header block ends

The reader of streams trims the white space of a line before it asks whether the line is
empty.  The header parser asks before it trims the blanks.  So the block ends with the
first line of nothing but white space for one of them, and with the first line of nothing
but line ends for the other.  A line of blanks between these two is a continuation, and a
line of form feeds is malformed.

`Bytes.behind?` gives what follows the first line of a kind.  Both readers leave this of
any text, with their own kind of line, and they leave the same iff the first line of white
space holds line ends only.
-/

namespace StreamingHttp

open Transport

/-! ### The header parser -/

namespace Header

/-- Whether a line holds nothing but line ends. -/
def isEmptyLine (line : Bytes) : Bool :=
  line.all Byte.isLineEnd

theorem content_eq_nil_iff {line : Bytes} (hline : Bytes.IsLine line) :
    content line = [] ↔ isEmptyLine line = true := by
  rw [← trimEnd_isLineEnd_of_isLine hline, Bytes.trimEnd_eq_nil_iff, isEmptyLine,
    List.all_eq_true]

namespace Parser

variable {line : Bytes}

/-- Only the end of a block ends it. -/
theorem phase_act_of_ne_blank (parser : Parser) {read : Line} (hread : read ≠ .blank)
    (hphase : parser.phase = .fields) :
    (parser.act read).phase = .fields ∧
      (parser.act read).unfinished = parser.unfinished := by
  cases read with
  | blank => exact absurd rfl hread
  | start content => exact ⟨rfl, rfl⟩
  | field name value => exact ⟨hphase, rfl⟩
  | malformed kind => exact ⟨hphase, rfl⟩
  | continuation content =>
      rw [act, addContinuation]
      split
      · exact ⟨hphase, rfl⟩
      · split
        · exact ⟨hphase, rfl⟩
        · exact ⟨hphase, rfl⟩

/-- A line which is not empty is read as something else than the end of a block,
whatever bytes it holds. -/
theorem read_ne_blank (hline : Bytes.IsLine line) (hne : content line ≠ [])
    (offset : Nat) : Line.read false offset line ≠ .blank := by
  rw [read_eq_of_content_ne_nil hline hne]
  simp only [Bool.false_eq_true, if_false]
  split
  · exact Line.noConfusion
  · rw [Line.ofFieldText]
    split
    · exact Line.noConfusion
    · split
      · exact Line.noConfusion
      · split <;> exact Line.noConfusion

/-- The bytes which are left, if the end of the block has been found. -/
def left? (parser : Parser) (returned : Bytes) : Option Bytes :=
  if parser.isDone then some returned else none

/-- A parser between two lines leaves what follows the first empty line. -/
theorem left?_feed_lines (parser : Parser) {lines : List Bytes} {tail : Bytes}
    (hlines : ∀ line ∈ lines, Bytes.IsLine line) (htail : Byte.lf ∉ tail)
    (hphase : parser.phase = .fields) (hunfinished : parser.unfinished = []) :
    (parser.feed (lines.flatten ++ tail)).2.left?
        (parser.feed (lines.flatten ++ tail)).1 =
      Bytes.behind? isEmptyLine lines tail := by
  have hopen : parser.isDone = false := by
    rw [isDone, hphase]
    rfl
  induction lines generalizing parser with
  | nil =>
      have hfed := feed_append_of_notMem hopen htail []
      rw [List.append_nil] at hfed
      rw [List.flatten_nil, List.nil_append, hfed]
      show (if parser.isDone then _ else _) = _
      rw [hopen]
      rfl
  | cons line later ih =>
      obtain ⟨hline, hlater⟩ := List.forall_mem_cons.mp hlines
      rw [List.flatten_cons, List.append_assoc, feed_line_append hopen hunfinished hline,
        addLine_eq_act hphase]
      by_cases hempty : content line = []
      · rw [read_of_content_eq_nil hline hempty,
          Bytes.behind?_cons_of_pos ((content_eq_nil_iff hline).mp hempty),
          feed_of_isDone rfl]
        rfl
      · have hkind : isEmptyLine line = false := by
          rw [← Bool.not_eq_true, ← content_eq_nil_iff hline]
          exact hempty
        obtain ⟨hfields, hnone⟩ := phase_act_of_ne_blank (parser.taken line)
          (read_ne_blank hline hempty parser.block.length) hphase
        rw [Bytes.behind?_cons_of_neg hkind]
        refine ih _ hlater hfields hnone ?_
        rw [isDone, hfields]
        rfl

end Parser

end Header

/-! ### Both readers -/

namespace EntityBlock

theorem map_snd_ofLines? (lines : List Bytes) (tail : Bytes) :
    (ofLines? lines tail).map (·.2) = Bytes.behind? isEnd lines tail := by
  rw [ofLines?, ending, Bytes.behind?]
  cases lines.dropWhile fun line => !isEnd line with
  | nil => rfl
  | cons blank later => rfl

/-- The reader of streams finds the end of a block iff the parser does, and then both
leave the same bytes.  Behind the text the stream goes on with `before`. -/
structure EndsTogether (before : Events)
    (result : EStateM.Result Failure Reader EntityFields) (returned : Bytes)
    (parser : Header.Parser) : Prop where
  found : (∃ fields after, result = .ok fields after) ↔ parser.isDone = true
  left : ∀ fields after, result = .ok fields after → parser.isDone = true →
    after.events = .ofBytes returned ++ before

variable {reader : Reader} {maxLine : Nat} {before after : Events} {failure : Failure}
  {lines : List Bytes} {tail : Bytes}

/-- Both end together iff the parser leaves what follows the first line of white space. -/
theorem endsTogether_iff_left? {result : EStateM.Result Failure Reader EntityFields}
    (hresult : Agrees result (outcome failure before after lines tail))
    (returned : Bytes) (parser : Header.Parser) :
    EndsTogether before result returned parser ↔
      parser.left? returned = Bytes.behind? isEnd lines tail := by
  rw [outcome] at hresult
  rw [← map_snd_ofLines?, Header.Parser.left?]
  cases hread : ofLines? lines tail with
  | none =>
      rw [hread] at hresult
      cases hresult with
      | error hlast =>
          cases hdone : parser.isDone with
          | false =>
              simp only [Bool.false_eq_true, if_false, Option.map_none, iff_true]
              refine ⟨by simp [hdone], fun _ _ hok => ?_⟩
              cases hok
          | true =>
              simp only [if_true, Option.map_none, reduceCtorEq, iff_false]
              intro h
              obtain ⟨_, _, hok⟩ := h.found.mpr hdone
              cases hok
  | some found =>
      rw [hread] at hresult
      obtain ⟨last, rfl, hlast⟩ := hresult.exists_ok
      cases hdone : parser.isDone with
      | false =>
          simp only [Bool.false_eq_true, if_false, Option.map_some, reduceCtorEq, iff_false]
          intro h
          rw [h.found.mp ⟨_, _, rfl⟩] at hdone
          cases hdone
      | true =>
          simp only [if_true, Option.map_some, Option.some.injEq]
          constructor
          · intro h
            have hleft := h.left _ _ rfl hdone
            rw [hlast.events_eq] at hleft
            exact (List.map_injective_iff.mpr (fun _ _ => Event.byte.inj)
              (List.append_cancel_right hleft)).symm
          · rintro rfl
            refine ⟨⟨fun _ => hdone, fun _ => ⟨_, _, rfl⟩⟩, fun _ _ hok _ => ?_⟩
            cases hok
            exact hlast.events_eq

/-- The two readers find the end of a block at the same byte iff the first line of white
space holds nothing but line ends.  If it holds anything else, the parser reads on where
the body starts for the reader of streams. -/
theorem endsTogether_iff {chunks : List Bytes} (hcapacity : 0 < reader.capacity)
    (hevents : reader.events = .ofBytes chunks.flatten ++ before)
    (hstop : Events.StopsWith failure before after)
    (hlines : ∀ line ∈ Bytes.lines chunks.flatten, line.length ≤ lineLimit maxLine)
    (htail : (Bytes.unterminated chunks.flatten).length < lineLimit maxLine) :
    EndsTogether before (EntityFields.read maxLine reader)
        (feedAll Header.Parser.feed (.new false) chunks).1.flatten
        (feedAll Header.Parser.feed (.new false) chunks).2 ↔
      ∀ line ∈ (Bytes.lines chunks.flatten).find? isEnd,
        Header.isEmptyLine line = true := by
  have hfed := Header.Parser.handsBack.feed_flatten (.new false) chunks
  obtain ⟨hisLine, hnone, htext⟩ := Bytes.exists_lines chunks.flatten
  generalize Bytes.lines chunks.flatten = lines at *
  generalize Bytes.unterminated chunks.flatten = tail at *
  have hfits : Fits (lineLimit maxLine) lines tail :=
    ⟨fun line hmem => hlines line ((List.takeWhile_sublist _).mem hmem),
      fun line hmem => hlines line
        ((List.dropWhile_sublist _).mem (List.mem_of_mem_head? hmem)),
      fun _ => htail⟩
  rw [htext] at hevents
  have hread := Reader.Shows.agrees_read hisLine hnone hfits hstop ⟨hcapacity, hevents⟩
  have hparsed := Header.Parser.left?_feed_lines (.new false) hisLine hnone rfl rfl
  rw [← htext, hfed] at hparsed
  rw [endsTogether_iff_left? hread, hparsed]
  refine Bytes.behind?_eq_iff ?_ ?_
  · intro line hmem hnil
    obtain ⟨body, -, hbody⟩ := hisLine line hmem
    simp [hnil] at hbody
  · intro line hempty
    rw [Header.isEmptyLine, List.all_eq_true] at hempty
    rw [isEnd, List.all_eq_true]
    intro b hb
    simp [Byte.isSpace, hempty b hb]

/-- Carriage returns before the line feed do not count, and a line of one blank behind
the end of the block is not looked at.  The parser is fed in chunks which cut both, and
the reader buffers one byte of the stream. -/
theorem endsTogether_behind_carriage_returns :
    let again : Failure := ⟨.interrupted, ""⟩
    let dropped : Failure := ⟨.connectionReset, "reset"⟩
    let chunks := [Utf8.ofString "A: b\r", Utf8.ofString "\n c\r\r\n\r\r",
      Utf8.ofString "\n \nz"]
    let reader : Reader :=
      { source := [.failure again, .data (chunks.flatten.drop 1), .failure dropped]
        capacity := 1
        buffer := chunks.flatten.take 1 }
    reader.events = Events.ofBytes chunks.flatten ++ [.failure dropped] ∧
      (∀ line ∈ Bytes.lines chunks.flatten, line.length ≤ lineLimit 6) ∧
      (Bytes.unterminated chunks.flatten).length < lineLimit 6 ∧
      EndsTogether [.failure dropped] (EntityFields.read 6 reader)
        (feedAll Header.Parser.feed (.new false) chunks).1.flatten
        (feedAll Header.Parser.feed (.new false) chunks).2 := by
  intro again dropped chunks reader
  have hevents : reader.events = Events.ofBytes chunks.flatten ++ [.failure dropped] := by
    decide
  have hlines : ∀ line ∈ Bytes.lines chunks.flatten, line.length ≤ lineLimit 6 := by
    decide
  have htail : (Bytes.unterminated chunks.flatten).length < lineLimit 6 := by decide
  exact ⟨hevents, hlines, htail, (endsTogether_iff (by decide) hevents
    (.failed dropped []) hlines htail).mpr (by decide)⟩

/-- A line of one blank ends the block for the reader of streams.  The parser takes it
for a continuation, and the body for the next line. -/
theorem not_endsTogether_at_blank :
    let text := Utf8.ofString "A: b\r\n \r\nbody"
    (∀ line ∈ Bytes.lines text, line.length < 1024) ∧
      (Bytes.unterminated text).length < 1024 ∧
      ¬ EndsTogether [] (EntityFields.read 1024 { source := [.data text] })
        ((Header.Parser.new false).feed text).1
        ((Header.Parser.new false).feed text).2 := by
  intro text
  have hshows : Reader.Shows
      (Events.ofBytes ((Bytes.lines text).flatten ++ Bytes.unterminated text) ++ [])
      { source := [.data text] } :=
    ⟨by decide, by decide⟩
  have hfits : Fits (lineLimit 1024) (Bytes.lines text) (Bytes.unterminated text) :=
    ⟨by decide, by decide, by decide⟩
  have hread := hshows.agrees_read (Bytes.exists_lines text).1
    (Bytes.exists_lines text).2.1 hfits (.ended .exhausted)
  refine ⟨by decide, by decide, ?_⟩
  rw [endsTogether_iff_left? hread]
  decide

end EntityBlock

end StreamingHttp
