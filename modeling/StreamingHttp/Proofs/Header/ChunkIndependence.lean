import StreamingHttp.Header.Parser
import StreamingHttp.Proofs.Chunks

/-!
# The parser does not see how its input is cut

A parser at the start of a block is a new one, or one which has been reset,
whatever it was fed before.  Fed a text in chunks, it ends in a state which
depends on the text alone, and so does what it hands back in all:

* while the blank line has not been read, the buffer is the text and nothing is
  handed back;
* afterwards the buffer is the text through the blank line, and the rest of the
  text is handed back.
-/

namespace StreamingHttp

namespace Header

namespace Parser

/-- What a caller does to a parser. -/
inductive Call where
  | feed (data : Bytes)
  | reset (hasStartLine : Bool)
  deriving DecidableEq, Repr

/-- The parser after a call. -/
def call (parser : Parser) : Call → Parser
  | .feed data => (parser.feed data).2
  | .reset hasStartLine => parser.reset hasStartLine

/-- The parser after a history of calls. -/
def run (parser : Parser) (history : List Call) : Parser :=
  history.foldl call parser

/-- A parser which is new, or which has been reset after any history. -/
def AtStart (hasStartLine : Bool) (parser : Parser) : Prop :=
  parser = new hasStartLine ∨
    ∃ first history, parser = ((new first).run history).reset hasStartLine

/-- A reset leaves no trace of the history before it. -/
theorem AtStart.eq_new {hasStartLine : Bool} {parser : Parser}
    (h : AtStart hasStartLine parser) : parser = new hasStartLine := by
  rcases h with rfl | ⟨first, history, rfl⟩
  · rfl
  · rfl

/-- What a caller can see of a parser. -/
structure View where
  done : Bool
  startLine : Bytes
  headers : List (Bytes × Bytes)
  faults : List Fault
  size : Nat
  buffered : Nat
  deriving DecidableEq, Repr

/-- What a caller sees. -/
def view (parser : Parser) : View where
  done := parser.isDone
  startLine := parser.startLine
  headers := parser.headers
  faults := parser.faults
  size := parser.size
  buffered := parser.buffer.length

/-! ### What is taken in is kept -/

/-- A continuation is a fault, or it changes the entries and nothing else. -/
theorem addContinuation_eq (parser : Parser) (content : Span) :
    parser.addContinuation content = parser.addFault .orphanContinuation ∨
      ∃ entries, parser.addContinuation content = { parser with entries } := by
  unfold addContinuation
  split
  · exact .inl rfl
  · split
    · exact .inr ⟨parser.entries, rfl⟩
    · exact .inr ⟨_, rfl⟩

/-- Acting on a line changes neither the block nor the unfinished line. -/
theorem bytes_act (parser : Parser) (line : Line) :
    (parser.act line).block = parser.block ∧
      (parser.act line).unfinished = parser.unfinished := by
  cases line with
  | continuation content =>
      rcases parser.addContinuation_eq content with h | ⟨entries, h⟩
      all_goals rw [act, h]; exact ⟨rfl, rfl⟩
  | _ => exact ⟨rfl, rfl⟩

theorem buffer_act (parser : Parser) (line : Line) :
    (parser.act line).buffer = parser.buffer := by
  obtain ⟨hblock, hunfinished⟩ := bytes_act parser line
  rw [buffer, hblock, hunfinished, buffer]

/-- A byte is added to the buffer, whether or not it ends a line. -/
theorem buffer_push (parser : Parser) (b : UInt8) :
    (parser.push b).buffer = parser.buffer ++ [b] := by
  unfold push
  split
  · rw [addLine, buffer_act]
    simp [buffer]
  · simp [buffer]

/-- Nothing is lost and nothing is kept twice: the buffer and what is handed back
are the buffer before and the data. -/
theorem buffer_append_feed (parser : Parser) (data : Bytes) :
    (parser.feed data).2.buffer ++ (parser.feed data).1 =
      parser.buffer ++ data := by
  induction data generalizing parser with
  | nil => rfl
  | cons b data ih =>
      unfold feed
      split
      · rfl
      · rw [ih, buffer_push, List.append_assoc]
        rfl

theorem feed_fst_of_not_done {parser : Parser} {data : Bytes}
    (h : (parser.feed data).2.isDone = false) : (parser.feed data).1 = [] := by
  induction data generalizing parser with
  | nil => rfl
  | cons b data ih =>
      unfold feed at h ⊢
      split at h
      · next hdone => simp [hdone] at h
      · next hopen =>
          rw [if_neg hopen]
          exact ih h

/-- The parser hands back what follows the blank line. -/
theorem handsBack : HandsBack feed isDone where
  nil _ := rfl
  done _ data h := feed_of_isDone h data
  waiting _ _ h := feed_fst_of_not_done h
  append := feed_append

/-- However two texts of the same bytes are cut, and whatever the parsers were fed
before they were reset, callers see the same in the end and are handed back the
same bytes.  These follow the buffer in the text. -/
theorem view_feedAll_eq {hasStartLine : Bool} {parser other : Parser}
    (hparser : AtStart hasStartLine parser) (hother : AtStart hasStartLine other)
    {chunks recut : List Bytes} (hcut : chunks.flatten = recut.flatten) :
    (feedAll feed parser chunks).2.view = (feedAll feed other recut).2.view ∧
      (feedAll feed parser chunks).1.flatten =
        (feedAll feed other recut).1.flatten ∧
      ((feedAll feed parser chunks).2.isDone = true →
        (feedAll feed parser chunks).2.buffer ++
          (feedAll feed parser chunks).1.flatten = chunks.flatten) ∧
      ((feedAll feed parser chunks).2.isDone = false →
        (∀ returned ∈ (feedAll feed parser chunks).1, returned = []) ∧
          (feedAll feed parser chunks).2.buffer = chunks.flatten) := by
  rw [hparser.eq_new, hother.eq_new]
  -- Both are one feed of the same text.
  have hfed := handsBack.feed_flatten (new hasStartLine) chunks
  have hrecut := handsBack.feed_flatten (new hasStartLine) recut
  rw [← hcut, hfed, Prod.mk.injEq] at hrecut
  have hkept := buffer_append_feed (new hasStartLine) chunks.flatten
  rw [hfed] at hkept
  refine ⟨by rw [hrecut.2], hrecut.1, fun _ => hkept, fun hopen => ?_⟩
  have hnothing := handsBack.eq_nil_of_mem_feedAll hopen
  refine ⟨hnothing, ?_⟩
  rw [List.flatten_eq_nil_iff.mpr hnothing] at hkept
  simpa [buffer, new] using hkept

/-- A parser which was reset in the middle of a line, and a new one.  The cuts
differ inside a line end, inside a fold and behind the blank line. -/
theorem view_feedAll_cut_in_fold :
    AtStart false (((new true).run [.feed [0x78, 0x0A, 0x20]]).reset false) ∧
      AtStart false (new false) ∧
      [[0x41, 0x3A, 0x62, 0x0D], [], [0x0A, 0x20], [0x63, 0x0A, 0x0A, 0x7A]].flatten =
        [[0x41, 0x3A], [0x62, 0x0D, 0x0A, 0x20, 0x63, 0x0A, 0x0A], [0x7A]].flatten ∧
      (feedAll feed (((new true).run [.feed [0x78, 0x0A, 0x20]]).reset false)
          [[0x41, 0x3A, 0x62, 0x0D], [], [0x0A, 0x20],
            [0x63, 0x0A, 0x0A, 0x7A]]).2.view =
        (feedAll feed (new false)
          [[0x41, 0x3A], [0x62, 0x0D, 0x0A, 0x20, 0x63, 0x0A, 0x0A],
            [0x7A]]).2.view := by
  have hreset : AtStart false
      (((new true).run [.feed [0x78, 0x0A, 0x20]]).reset false) :=
    .inr ⟨true, [.feed [0x78, 0x0A, 0x20]], rfl⟩
  exact ⟨hreset, .inl rfl, by decide,
    (view_feedAll_eq hreset (.inl rfl) (by decide)).1⟩

end Parser

end Header

end StreamingHttp
