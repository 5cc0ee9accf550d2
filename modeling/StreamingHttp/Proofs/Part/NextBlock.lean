import StreamingHttp.Proofs.Boundary.LineScanning
import StreamingHttp.Proofs.Part.Rounds

/-!
# Where the next header block starts

When the header block of a part ends, the reader starts again and looks for the next
boundary line.  Its scanner has taken in nothing then, and the line feed of the blank line
went to the parser.  So the next header block starts behind the first delimiter line
*after the line which follows the block*, whatever that line is.

* `EndsBlock` and `AtBlock` tell from the parts which are given back, and from the two
  machines, where a header block has ended and where one starts.
* `NextBlock` is the first place behind the end of a block where another one starts.
  `nextBlock_iff` reads it off the lines of the text.

A delimiter line right behind a blank line, as a part without a content has it, is skipped
as the content of that part.
-/

namespace StreamingHttp

namespace Part

namespace Reader

open Boundary

/-- A header block starts here: the boundary line has ended, and the parser has taken in
nothing. -/
def AtBlock (reader : Reader) : Prop :=
  reader.scanner.isDone = true ∧ reader.parser = .new false

/-- The last of these bytes ends the header block of a part. -/
def EndsBlock (boundary text : Bytes) : Prop :=
  ∃ front b, text = front ++ [b] ∧
    ((start boundary).feed front).1.length < ((start boundary).feed text).1.length

/-- Behind the text, the next header block starts where `left` is left of the rest: there
and not before, in whatever chunks the bytes are fed. -/
def NextBlock (boundary text rest left : Bytes) : Prop :=
  ∃ skipped, rest = skipped ++ left ∧
    (∀ chunks : List Bytes, chunks.flatten = text ++ skipped →
      (feedAll feed (start boundary) chunks).2.AtBlock) ∧
    ∀ shorter, shorter <+: skipped → shorter ≠ skipped →
      ∀ chunks : List Bytes, chunks.flatten = text ++ shorter →
        ¬ (feedAll feed (start boundary) chunks).2.AtBlock

variable {reader other : Reader} {boundary text rest left : Bytes}

/-! ### The end of a block -/

theorem boundary_feed (reader : Reader) (data : Bytes) :
    (reader.feed data).2.boundary = reader.boundary := by
  induction reader, data using feed.induct with
  | case1 reader => rw [feed_nil]
  | case2 reader data hdata hsearched hclosed ih =>
      rw [feed_of_block_closed hsearched hclosed hdata]
      exact ih
  | case3 reader data hdata hsearched hopen =>
      rw [feed_of_block_open hsearched (by simpa using hopen)]
  | case4 reader data hdata hsearching ih =>
      rw [feed_of_searching (by simpa using hsearching) hdata]
      exact ih

/-- A single byte which makes a part leaves the reader started again. -/
theorem AwaitsBlock.feed_singleton (h : reader.AwaitsBlock) {b : UInt8}
    (hpart : (reader.feed [b]).1 ≠ []) : (reader.feed [b]).2 = reader.restart := by
  have hbyte : [b] ≠ [] := List.cons_ne_nil b []
  have hrest : (reader.round [b]).rest = [] := by
    have hshorter := h.length_rest_lt hbyte
    rw [List.length_singleton, Nat.lt_one_iff] at hshorter
    exact List.length_eq_zero_iff.mp hshorter
  rw [feed_eq_round reader hbyte, hrest, feed_nil] at hpart ⊢
  rw [Reader.round] at hpart ⊢
  split
  · split
    · rfl
    · next hsearched hopen => simp [hsearched, hopen] at hpart
  · next hsearching => simp [hsearching] at hpart

theorem EndsBlock.control_eq (h : EndsBlock boundary text) :
    ((start boundary).feed text).2.control = (new boundary).control := by
  obtain ⟨front, b, rfl, hmore⟩ := h
  obtain ⟨hparts, hcontrol⟩ := (start boundary).feed_append front [b]
  have hawaits := ((awaitsBlock_start boundary).loops_feed front).2
  have hboundary := boundary_feed (start boundary) front
  have hpart : (((start boundary).feed front).2.feed [b]).1 ≠ [] := by
    intro hnone
    rw [hparts, hnone, List.append_nil] at hmore
    exact Nat.lt_irrefl _ hmore
  rw [hcontrol, hawaits.feed_singleton hpart, control_eq_iff]
  exact ⟨hboundary, by rw [restart, hboundary]; rfl, rfl⟩

/-! ### The search for the next one -/

theorem atBlock_iff_of_control_eq (h : reader.control = other.control) :
    reader.AtBlock ↔ other.AtBlock := by
  obtain ⟨-, hscanner, hparser⟩ := control_eq_iff.mp h
  rw [AtBlock, AtBlock, Scanner.isDone_eq_of_control_eq hscanner, hparser]

/-- A reader which starts again comes to a block with the byte which ends the boundary
line. -/
theorem atBlock_feed_new {data : Bytes} {scanner : Scanner}
    (hscan : (Scanner.new boundary false).scan data = ([], scanner)) :
    ((new boundary).feed data).2.AtBlock ↔ scanner.isDone = true := by
  by_cases hdata : data = []
  · subst hdata
    cases hscan
    rw [feed_nil]
    exact ⟨fun h => h.1, fun h => ⟨h, rfl⟩⟩
  · have hfed : (new boundary).scanner.feed data = ([], scanner.compact) := by
      show (((Scanner.new boundary false).scan data).1,
        ((Scanner.new boundary false).scan data).2.compact) = _
      rw [hscan]
    rw [feed_of_searching rfl hdata, hfed, feed_nil, ← Scanner.isDone_compact scanner]
    exact ⟨fun h => h.1, fun h => ⟨h, rfl⟩⟩

/-- As long as its scanner is not done, a reader which starts again is at no block. -/
theorem not_atBlock_feed_new {data : Bytes}
    (hopen : ((Scanner.new boundary false).scan data).2.isDone = false) :
    ¬ ((new boundary).feed data).2.AtBlock := by
  have hnothing : ((Scanner.new boundary false).scan data).1 = [] := by
    have hfed := Scanner.feed_fst_of_not_done
      ((Scanner.isDone_feed (Scanner.new boundary false) data).trans hopen)
    exact hfed
  have hscan : (Scanner.new boundary false).scan data =
      ([], ((Scanner.new boundary false).scan data).2) := by
    rw [← hnothing]
  rw [atBlock_feed_new hscan, hopen]
  exact Bool.false_ne_true

/-- Behind a block, only what follows it tells whether the reader is at another one. -/
theorem EndsBlock.atBlock_iff (h : EndsBlock boundary text) {chunks : List Bytes}
    {data : Bytes} (hchunks : chunks.flatten = text ++ data) :
    (feedAll feed (start boundary) chunks).2.AtBlock ↔
      ((new boundary).feed data).2.AtBlock := by
  apply atBlock_iff_of_control_eq
  have hcontrol := ((start boundary).feedAll_eq_feed_flatten chunks).2
  rw [hcontrol, hchunks, ((start boundary).feed_append text data).2]
  exact (feed_eq_of_control_eq h.control_eq data).2

/-- The next block starts where a scanner which has taken in nothing is done. -/
theorem nextBlock_iff_left? (h : EndsBlock boundary text) :
    NextBlock boundary text rest left ↔
      ((Scanner.new boundary false).scan rest).2.left?
        ((Scanner.new boundary false).scan rest).1 = some left := by
  constructor
  · rintro ⟨skipped, rfl, hat, hfirst⟩
    have hblock : ((new boundary).feed skipped).2.AtBlock :=
      (h.atBlock_iff (by simp)).mp (hat [text ++ skipped] (by simp))
    have hdone : ((Scanner.new boundary false).scan skipped).2.isDone = true := by
      by_contra hopen
      exact not_atBlock_feed_new (by simpa using hopen) hblock
    have hleft : ((Scanner.new boundary false).scan skipped).2.left?
        ((Scanner.new boundary false).scan skipped).1 =
          some ((Scanner.new boundary false).scan skipped).1 := by
      rw [Scanner.left?, if_pos hdone]
    obtain ⟨taken, hskipped, hscan, hend⟩ := Scanner.exists_taken_of_left? rfl hleft
    -- The reader is at a block behind what is taken in, so nothing more is skipped.
    have hall : taken = skipped := by
      by_contra hshorter
      have hprefix : taken <+: skipped := ⟨_, hskipped.symm⟩
      exact hfirst taken hprefix hshorter [text ++ taken] (by simp)
        ((h.atBlock_iff (by simp)).mpr ((atBlock_feed_new hscan).mpr hend))
    have hnothing : ((Scanner.new boundary false).scan skipped).1 = [] := by
      rw [← hall, hscan]
    rw [Scanner.scan_append_of_done hdone, hnothing, Scanner.left?, if_pos hdone]
    rfl
  · intro hleft
    obtain ⟨taken, rfl, hscan, hend⟩ := Scanner.exists_taken_of_left? rfl hleft
    refine ⟨taken, rfl, fun chunks hchunks => ?_,
      fun shorter hprefix hne chunks hchunks hat => ?_⟩
    · exact (h.atBlock_iff hchunks).mpr ((atBlock_feed_new hscan).mpr hend)
    · obtain ⟨more, rfl⟩ := hprefix
      have hdone : ((Scanner.new boundary false).scan shorter).2.isDone = true := by
        by_contra hopen
        exact not_atBlock_feed_new (by simpa using hopen) ((h.atBlock_iff hchunks).mp hat)
      -- The scanner would leave what follows the shorter text.
      rw [Scanner.scan_append_of_done hdone, Prod.mk.injEq, List.append_eq_nil_iff] at hscan
      exact hne (by rw [hscan.1.2, List.append_nil])

/-- The next block starts behind the first delimiter line among those after the first
line. -/
theorem nextBlock_iff (hboundary : Byte.lf ∉ boundary) (h : EndsBlock boundary text) :
    NextBlock boundary text rest left ↔
      Bytes.behind? (isDelimiterLine boundary) (Bytes.lines rest).tail
        (Bytes.unterminated rest) = some left := by
  obtain ⟨hlines, htail, hrest⟩ := Bytes.exists_lines rest
  have hscan := Scanner.left?_scan_new hboundary false hlines htail
  rw [← hrest] at hscan
  rw [nextBlock_iff_left? h, hscan]

/-- Behind the end of a block, the next one starts behind the first delimiter line after
the line which follows, and nowhere if there is none.  This is the first delimiter line of
all iff the line which follows is none itself. -/
theorem nextBlock_behind_first_delimiterLine_iff (hboundary : Byte.lf ∉ boundary)
    (h : EndsBlock boundary text) (rest : Bytes) :
    (∀ left, NextBlock boundary text rest left ↔
      Bytes.behind? (isDelimiterLine boundary) (Bytes.lines rest).tail
        (Bytes.unterminated rest) = some left) ∧
    ((∀ left, Bytes.behind? (isDelimiterLine boundary) (Bytes.lines rest)
        (Bytes.unterminated rest) = some left → NextBlock boundary text rest left) ↔
      ∀ line ∈ (Bytes.lines rest).head?, isDelimiterLine boundary line = false) := by
  refine ⟨fun left => nextBlock_iff hboundary h, ?_⟩
  simp only [nextBlock_iff hboundary h]
  have hlines := (Bytes.exists_lines rest).1
  generalize Bytes.lines rest = lines at hlines ⊢
  generalize Bytes.unterminated rest = tail
  cases lines with
  | nil => simp [Bytes.behind?]
  | cons line later =>
      simp only [List.tail_cons, List.head?_cons, Option.mem_some_iff, forall_eq']
      cases hkind : isDelimiterLine boundary line with
      | false =>
          rw [Bytes.behind?_cons_of_neg hkind]
          simp
      | true =>
          -- What a later line leaves is shorter.
          have hlater : ∀ line ∈ later, line ≠ [] := by
            rintro line hmem rfl
            obtain ⟨body, -, hbody⟩ := hlines [] (List.mem_cons_of_mem _ hmem)
            simp at hbody
          have hfurther : Bytes.behind? (isDelimiterLine boundary) later tail ≠
              some (later.flatten ++ tail) := fun hsame =>
            Nat.lt_irrefl _ (Bytes.length_lt_of_behind?_eq_some hlater hsame)
          rw [Bytes.behind?_cons_of_pos hkind]
          simp [hfurther]

/-- A part whose content starts like a delimiter line and goes on with another one. -/
theorem nextBlock_behind_first_delimiterLine_of_content :
    let boundary := Utf8.ofString "foo"
    let text := Utf8.ofString "--foo\r\nA: 1\r\n\r\n"
    let rest := Utf8.ofString "--fo\r\n--foo \r\nB: 2\r\n\r\n--foo"
    Byte.lf ∉ boundary ∧ EndsBlock boundary text ∧
      NextBlock boundary text rest (Utf8.ofString "B: 2\r\n\r\n--foo") := by
  intro boundary text rest
  have hboundary : Byte.lf ∉ boundary := by decide
  have hends : EndsBlock boundary text :=
    ⟨Utf8.ofString "--foo\r\nA: 1\r\n\r", Byte.lf, by decide, by decide +kernel⟩
  obtain ⟨-, hfirst⟩ := nextBlock_behind_first_delimiterLine_iff hboundary hends rest
  exact ⟨hboundary, hends, hfirst.mpr (by decide) _ (by decide)⟩

/-- A part without a content.  The delimiter line behind its block is the first one, and
no block starts behind it: the reader takes it for content, and gives back one part fewer
than there are. -/
theorem not_nextBlock_behind_blank_line :
    let boundary := Utf8.ofString "frame"
    let text := Utf8.ofString "--frame\r\nA: 1\r\n\r\n"
    let behind := Utf8.ofString "B: 2\r\n\r\nbody\r\n--frame--\r\n"
    let rest := Utf8.ofString "--frame\r\n" ++ behind
    EndsBlock boundary text ∧
      Bytes.behind? (isDelimiterLine boundary) (Bytes.lines rest)
        (Bytes.unterminated rest) = some behind ∧
      ¬ NextBlock boundary text rest behind ∧
      ((start boundary).feed (text ++ rest)).1.length = 1 := by
  intro boundary text behind rest
  have hends : EndsBlock boundary text :=
    ⟨Utf8.ofString "--frame\r\nA: 1\r\n\r", Byte.lf, by decide, by decide +kernel⟩
  refine ⟨hends, by decide, ?_, by decide +kernel⟩
  rw [nextBlock_iff (by decide) hends]
  decide

end Reader

end Part

end StreamingHttp
