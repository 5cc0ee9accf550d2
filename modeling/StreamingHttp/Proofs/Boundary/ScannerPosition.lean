import StreamingHttp.Boundary.Scanner
import StreamingHttp.Proofs.Boundary.FirstOccurrence
import StreamingHttp.Proofs.Chunks

/-!
# The scanner finds the first boundary line

The phase of a scanner says what the text taken in looks like:

* `boundary m`: its end is the first `m` bytes of the pattern;
* `padding`: a pattern and no line feed behind it;
* `done`: a pattern, its padding and the line feed.

If the boundary holds no line feed, nothing is overlooked: `m` is the only number
of pattern bytes the text ends with, other than none, and the pattern which was
found is the first one.  A line feed can then stand at the start of the pattern
only, which is why a mismatch may forget all but the line feed itself.

Feeding in chunks and dropping bytes which nobody asks for leave the phase alone.
-/

namespace StreamingHttp

namespace Boundary

variable {boundary text : Bytes}

theorem getElem?_pattern_zero : (pattern boundary)[0]? = some Byte.lf :=
  rfl

theorem length_pattern : (pattern boundary).length = 3 + boundary.length := by
  simp only [pattern, delimiter, List.length_cons]
  omega

/-- The one line feed of the pattern is its first byte. -/
theorem eq_zero_of_getElem?_pattern (hboundary : Byte.lf ∉ boundary)
    {position : Nat} (h : (pattern boundary)[position]? = some Byte.lf) :
    position = 0 := by
  cases position with
  | zero => rfl
  | succ position =>
      have hmem : Byte.lf ∈ delimiter boundary := List.mem_of_getElem? h
      simp [delimiter, hboundary, Byte.lf, Byte.dash] at hmem

/-- The text up to a boundary line: what is before the pattern, and the padding
behind it. -/
structure LeadsTo (boundary text before padding : Bytes) : Prop where
  eq : text = before ++ pattern boundary ++ padding
  clean : Byte.lf ∉ padding
  first : Byte.lf ∉ boundary →
    ¬ pattern boundary <:+: (before ++ pattern boundary).dropLast

/-- What a phase says about the text taken in. -/
def Phase.Describes (boundary text : Bytes) : Phase → Prop
  | .boundary matched =>
      matched < (pattern boundary).length ∧
        (pattern boundary).take matched <:+ text ∧
        (Byte.lf ∉ boundary →
          (∀ length, 0 < length → length ≤ (pattern boundary).length →
            (pattern boundary).take length <:+ text → length = matched) ∧
          ¬ pattern boundary <:+: text)
  | .padding => ∃ before padding, LeadsTo boundary text before padding
  | .done => ∃ body before padding,
      text = body ++ [Byte.lf] ∧ LeadsTo boundary body before padding

theorem Phase.describes_nil : (Phase.boundary 0).Describes boundary [] := by
  have hlong : 0 < (pattern boundary).length := by
    rw [length_pattern]
    omega
  refine ⟨hlong, by simp, fun _ => ⟨?_, ?_⟩⟩
  · intro length hpos hle hsuffix
    have := hsuffix.length_le
    simp only [List.length_take, List.length_nil] at this
    omega
  · intro hwithin
    have := hwithin.length_le
    rw [List.length_nil] at this
    omega

section Step

variable {b : UInt8} {matched : Nat}

/-- A byte after which the text ends with a prefix of the pattern, and with no other
one.  A longer prefix consists of one which the text ended with before, and the
byte. -/
theorem Phase.describes_concat (h : (Phase.boundary matched).Describes boundary text)
    {next : Nat} (hnext : next < (pattern boundary).length)
    (hends : (pattern boundary).take next <:+ text ++ [b])
    (honly : Byte.lf ∉ boundary → ∀ length, (pattern boundary)[length]? = some b →
      length = 0 ∨ length = matched → length + 1 = next) :
    (Phase.boundary next).Describes boundary (text ++ [b]) := by
  obtain ⟨-, -, hfirst⟩ := h
  refine ⟨hnext, hends, fun hboundary => ?_⟩
  obtain ⟨hlength, htext⟩ := hfirst hboundary
  have hunique : ∀ length, 0 < length → length ≤ (pattern boundary).length →
      (pattern boundary).take length <:+ text ++ [b] → length = next := by
    intro length hpos hle hsuffix
    obtain ⟨shorter, rfl⟩ := Nat.exists_eq_succ_of_ne_zero hpos.ne'
    obtain ⟨hbyte, hstarts⟩ := (take_succ_isSuffix_concat_iff hle).mp hsuffix
    apply honly hboundary shorter hbyte
    rcases Nat.eq_zero_or_pos shorter with hzero | hpos
    · exact .inl hzero
    · exact .inr (hlength shorter hpos (by omega) hstarts)
  refine ⟨hunique, ?_⟩
  rw [List.infix_concat_iff]
  rintro (hsuffix | hwithin)
  · -- The whole pattern would be the prefix.
    have := hunique (pattern boundary).length (by omega) le_rfl
      (by rwa [List.take_length])
    omega
  · exact htext hwithin

/-- The next byte is the next one of the pattern. -/
theorem Phase.describes_match
    (h : (Phase.boundary matched).Describes boundary text)
    (hb : (pattern boundary)[matched]? = some b)
    (hshort : matched + 1 ≠ (pattern boundary).length) :
    (Phase.boundary (matched + 1)).Describes boundary (text ++ [b]) := by
  have hmatched := h.1
  apply describes_concat h (by omega)
    ((take_succ_isSuffix_concat_iff hmatched).mpr ⟨hb, h.2.1⟩)
  rintro hboundary length hbyte (rfl | rfl)
  · -- The byte is the line feed, so it is the first one of the pattern.
    rw [← hbyte, getElem?_pattern_zero] at hb
    rw [eq_zero_of_getElem?_pattern hboundary hb]
  · rfl

/-- The next byte is the last one of the pattern. -/
theorem Phase.describes_match_last
    (h : (Phase.boundary matched).Describes boundary text)
    (hb : (pattern boundary)[matched]? = some b)
    (hlast : matched + 1 = (pattern boundary).length) :
    Phase.padding.Describes boundary (text ++ [b]) := by
  obtain ⟨hmatched, hsuffix, hfirst⟩ := h
  have hends := (take_succ_isSuffix_concat_iff hmatched).mpr ⟨hb, hsuffix⟩
  rw [hlast, List.take_length] at hends
  obtain ⟨before, hbefore⟩ := hends
  refine ⟨before, [], by simp [hbefore], by simp, fun hboundary => ?_⟩
  rw [hbefore, List.dropLast_concat]
  exact (hfirst hboundary).2

/-- Another line feed starts the pattern anew. -/
theorem Phase.describes_restart
    (h : (Phase.boundary matched).Describes boundary text) :
    (Phase.boundary 1).Describes boundary (text ++ [Byte.lf]) := by
  have hlong : 1 < (pattern boundary).length := by
    rw [length_pattern]
    omega
  apply describes_concat h hlong (List.suffix_append _ _)
  intro hboundary length hbyte _
  rw [eq_zero_of_getElem?_pattern hboundary hbyte]

/-- Any other byte leaves nothing of the pattern. -/
theorem Phase.describes_mismatch
    (h : (Phase.boundary matched).Describes boundary text)
    (hb : (pattern boundary)[matched]? ≠ some b) (hlf : b ≠ Byte.lf) :
    (Phase.boundary 0).Describes boundary (text ++ [b]) := by
  have hlong : 0 < (pattern boundary).length := by
    rw [length_pattern]
    omega
  apply describes_concat h hlong (by simp)
  rintro - length hbyte (rfl | rfl)
  · rw [getElem?_pattern_zero] at hbyte
    exact absurd (Option.some.inj hbyte).symm hlf
  · exact absurd hbyte hb

/-- A byte takes a phase which is not the last to one which says the same about
the longer text. -/
theorem Phase.describes_next {phase : Phase} (h : phase.Describes boundary text)
    (hphase : phase ≠ .done) (b : UInt8) :
    (phase.next (pattern boundary) b).Describes boundary (text ++ [b]) := by
  cases phase with
  | boundary matched =>
      rw [Phase.next]
      by_cases hb : (pattern boundary)[matched]? = some b
      · rw [if_pos hb]
        by_cases hlast : matched + 1 = (pattern boundary).length
        · rw [if_pos hlast]
          exact describes_match_last h hb hlast
        · rw [if_neg hlast]
          exact describes_match h hb hlast
      · rw [if_neg hb]
        by_cases hlf : b = Byte.lf
        · rw [if_pos hlf, hlf]
          exact describes_restart h
        · rw [if_neg hlf]
          exact describes_mismatch h hb hlf
  | padding =>
      obtain ⟨before, padding, heq, hpadding, hfirst⟩ := h
      rw [Phase.next]
      by_cases hlf : b = Byte.lf
      · rw [if_pos hlf, hlf]
        exact ⟨text, before, padding, rfl, heq, hpadding, hfirst⟩
      · rw [if_neg hlf]
        refine ⟨before, padding ++ [b], by simp [heq], ?_, hfirst⟩
        simp [hpadding, Ne.symm hlf]
  | done => exact absurd rfl hphase

end Step

namespace Scanner

/-- A scanner which looks for the boundary has taken in this text. -/
structure HasRead (boundary : Bytes) (save : Bool) (text : Bytes)
    (scanner : Scanner) : Prop where
  boundary_eq : scanner.boundary = boundary
  save_eq : scanner.save = save
  phase : scanner.phase.Describes boundary text
  skipped_eq : save = true → scanner.skipped = text

variable {save : Bool} {scanner : Scanner}

theorem hasRead_new (boundary : Bytes) (save : Bool) :
    (new boundary save).HasRead boundary save [] where
  boundary_eq := rfl
  save_eq := rfl
  phase := Phase.describes_nil
  skipped_eq hsave := by simp [skipped, new, hsave]

theorem HasRead.push (h : scanner.HasRead boundary save text)
    (hopen : scanner.isDone = false) (b : UInt8) :
    (scanner.push b).HasRead boundary save (text ++ [b]) where
  boundary_eq := h.boundary_eq
  save_eq := h.save_eq
  phase := by
    have hphase : scanner.phase ≠ .done := by
      simpa [isDone] using hopen
    have hnext := Phase.describes_next h.phase hphase b
    rwa [← h.boundary_eq] at hnext ⊢
  skipped_eq := by
    intro hsave
    have hkept : scanner.buffer.reverse = text := by
      have := h.skipped_eq hsave
      rwa [skipped, h.save_eq, if_pos hsave] at this
    show (if scanner.save = true then (b :: scanner.buffer).reverse else []) = _
    rw [h.save_eq, if_pos hsave, List.reverse_cons, hkept]

/-- Dropping bytes which nobody asks for changes nothing that can be seen. -/
theorem HasRead.compact (h : scanner.HasRead boundary save text) :
    scanner.compact.HasRead boundary save text := by
  unfold Scanner.compact
  split
  · next hdrop =>
      have hunsaved : scanner.save = false := by
        simp only [Bool.and_eq_true, Bool.not_eq_true'] at hdrop
        exact hdrop.1.2
      refine ⟨h.boundary_eq, h.save_eq, h.phase, fun hsave => ?_⟩
      rw [← h.save_eq, hunsaved] at hsave
      cases hsave
  · exact h

theorem isDone_compact (scanner : Scanner) :
    scanner.compact.isDone = scanner.isDone := by
  unfold Scanner.compact
  split
  · rfl
  · rfl

/-- What is handed back follows what is taken in. -/
theorem HasRead.scan (h : scanner.HasRead boundary save text) (data : Bytes) :
    ∃ taken, data = taken ++ (scanner.scan data).1 ∧
      (scanner.scan data).2.HasRead boundary save (text ++ taken) ∧
      ((scanner.scan data).2.isDone = false → (scanner.scan data).1 = []) := by
  induction data generalizing scanner text with
  | nil => exact ⟨[], rfl, by rwa [List.append_nil], fun _ => rfl⟩
  | cons b data ih =>
      unfold Scanner.scan
      split
      · next hdone =>
          refine ⟨[], rfl, by rwa [List.append_nil], fun hopen => ?_⟩
          rw [hdone] at hopen
          cases hopen
      · next hopen =>
          obtain ⟨taken, hdata, hread, hnothing⟩ := ih (h.push (by simpa using hopen) b)
          refine ⟨b :: taken, by rw [List.cons_append, ← hdata], ?_, hnothing⟩
          rwa [List.append_assoc] at hread

/-- A feed takes in the rest of the boundary line and no more. -/
theorem HasRead.feed (h : scanner.HasRead boundary save text) (data : Bytes) :
    ∃ taken, data = taken ++ (scanner.feed data).1 ∧
      (scanner.feed data).2.HasRead boundary save (text ++ taken) ∧
      ((scanner.feed data).2.isDone = false → (scanner.feed data).1 = []) := by
  obtain ⟨taken, hdata, hread, hnothing⟩ := h.scan data
  refine ⟨taken, hdata, hread.compact, fun hopen => hnothing ?_⟩
  exact (isDone_compact _).symm.trans hopen

/-- A scanner which is done hands every chunk back. -/
theorem feedAll_of_isDone (h : scanner.isDone = true) (chunks : List Bytes) :
    feedAll Scanner.feed scanner chunks = (chunks, scanner) := by
  apply feedAll_of_forall_eq
  intro data
  rw [Scanner.feed, scan_of_isDone h, Scanner.compact]
  simp [h]

/-- All the feeds together take in the boundary line and what is before it. -/
theorem HasRead.feeds (h : scanner.HasRead boundary save text)
    (chunks : List Bytes) :
    ∃ taken, chunks.flatten =
        taken ++ (feedAll Scanner.feed scanner chunks).1.flatten ∧
      (feedAll Scanner.feed scanner chunks).2.HasRead boundary save
        (text ++ taken) ∧
      ((feedAll Scanner.feed scanner chunks).2.isDone = false →
        ∀ returned ∈ (feedAll Scanner.feed scanner chunks).1,
          returned = []) := by
  induction chunks generalizing scanner text with
  | nil =>
      refine ⟨[], rfl, by rwa [List.append_nil], fun _ returned hmem => ?_⟩
      cases hmem
  | cons chunk later ih =>
      obtain ⟨taken, hchunk, hread, hnothing⟩ := h.feed chunk
      cases hdone : (scanner.feed chunk).2.isDone with
      | true =>
          -- The boundary line ends in this chunk, and the later ones come back.
          rw [feedAll, feedAll_of_isDone hdone]
          refine ⟨taken, ?_, hread, fun hopen => ?_⟩
          · rw [List.flatten_cons, List.flatten_cons, ← List.append_assoc, ← hchunk]
          · rw [hdone] at hopen
            cases hopen
      | false =>
          obtain ⟨more, hlater, hreads, hnone⟩ := ih hread
          have hreturned := hnothing hdone
          rw [hreturned, List.append_nil] at hchunk
          rw [feedAll]
          refine ⟨taken ++ more, ?_, ?_, fun hopen returned hmem => ?_⟩
          · rw [List.flatten_cons, List.flatten_cons, hreturned, hlater, ← hchunk,
              List.nil_append, List.append_assoc]
          · rwa [← List.append_assoc]
          · rcases List.mem_cons.mp hmem with rfl | hmem
            · exact hreturned
            · exact hnone hopen returned hmem

end Scanner

/-- The first boundary line of a text: where its pattern starts, and where the
line feed behind its padding is. -/
structure FirstBoundaryLine (boundary text : Bytes) (start stop : Nat) : Prop where
  pattern : FirstOccurrence (pattern boundary) text start
  behind : start + 3 + boundary.length ≤ stop
  lineFeed : text[stop]? = some Byte.lf
  first : ∀ earlier, start + 3 + boundary.length ≤ earlier → earlier < stop →
    text[earlier]? ≠ some Byte.lf

theorem FirstBoundaryLine.unique {start stop start' stop' : Nat}
    (h : FirstBoundaryLine boundary text start stop)
    (h' : FirstBoundaryLine boundary text start' stop') :
    start = start' ∧ stop = stop' := by
  obtain rfl := h.pattern.unique h'.pattern
  refine ⟨rfl, ?_⟩
  rcases Nat.lt_trichotomy stop stop' with hlt | heq | hgt
  · exact absurd h.lineFeed (h'.first stop h.behind hlt)
  · exact heq
  · exact absurd h'.lineFeed (h.first stop' h'.behind hgt)

namespace LeadsTo

variable {before padding rest : Bytes}

theorem firstOccurrence (h : LeadsTo boundary text before padding)
    (hboundary : Byte.lf ∉ boundary) (rest : Bytes) :
    FirstOccurrence (pattern boundary) (text ++ rest) before.length := by
  rw [h.eq, List.append_assoc]
  exact firstOccurrence_of_append (h.first hboundary)

/-- Every byte of the text behind the pattern is padding. -/
theorem getElem?_ne (h : LeadsTo boundary text before padding) (rest : Bytes)
    {position : Nat} (hlow : before.length + 3 + boundary.length ≤ position)
    (hhigh : position < text.length) :
    (text ++ rest)[position]? ≠ some Byte.lf := by
  intro hbyte
  rw [List.getElem?_append_left hhigh, h.eq,
    List.getElem?_append_right (by simp [length_pattern]; omega)] at hbyte
  exact h.clean (List.mem_of_getElem? hbyte)

/-- The line feed behind the padding ends the first boundary line. -/
theorem firstBoundaryLine (h : LeadsTo boundary text before padding)
    (hboundary : Byte.lf ∉ boundary) (rest : Bytes) :
    FirstBoundaryLine boundary (text ++ Byte.lf :: rest) before.length
      text.length where
  pattern := h.firstOccurrence hboundary _
  behind := by
    rw [h.eq]
    simp only [List.length_append, length_pattern]
    omega
  lineFeed := by simp
  first := fun _ hlow hhigh => h.getElem?_ne _ hlow hhigh

end LeadsTo

/-- A text which has a first boundary line takes the scanner to its end. -/
theorem Phase.eq_done_of_firstBoundaryLine {phase : Phase} {start stop : Nat}
    (h : phase.Describes boundary text) (hboundary : Byte.lf ∉ boundary)
    (hline : FirstBoundaryLine boundary text start stop) : phase = .done := by
  cases phase with
  | boundary matched => exact absurd hline.pattern.occurs.isInfix (h.2.2 hboundary).2
  | padding =>
      obtain ⟨before, padding, hleads⟩ := h
      have hfirst := hleads.firstOccurrence hboundary []
      rw [List.append_nil] at hfirst
      obtain rfl := hline.pattern.unique hfirst
      have hinside := (List.getElem?_eq_some_iff.mp hline.lineFeed).1
      have hno := hleads.getElem?_ne [] hline.behind hinside
      rw [List.append_nil] at hno
      exact absurd hline.lineFeed hno
  | done => rfl

/-- A scanner which is done has read a boundary line last, and for a boundary
without a line feed that was the first one. -/
theorem Phase.describes_done (h : Phase.done.Describes boundary text) :
    (∃ before padding, Byte.lf ∉ padding ∧
      text = before ++ pattern boundary ++ padding ++ [Byte.lf]) ∧
    (Byte.lf ∉ boundary → ∀ rest, ∃ start stop,
      FirstBoundaryLine boundary (text ++ rest) start stop ∧
        text.length = stop + 1) := by
  obtain ⟨body, before, padding, rfl, hleads⟩ := h
  refine ⟨⟨before, padding, hleads.clean, by rw [hleads.eq]⟩, fun hboundary rest => ?_⟩
  refine ⟨before.length, body.length, ?_, by simp⟩
  rw [List.append_assoc]
  exact hleads.firstBoundaryLine hboundary rest

/-- A single feed which holds the first boundary line ends behind it. -/
theorem Scanner.feed_of_firstBoundaryLine (hboundary : Byte.lf ∉ boundary) (save : Bool)
    {start stop : Nat} (h : FirstBoundaryLine boundary text start stop) :
    ((new boundary save).feed text).2.isDone = true ∧
      ((new boundary save).feed text).1 = text.drop (stop + 1) := by
  obtain ⟨taken, htext, hread, hnothing⟩ := (hasRead_new boundary save).feed text
  rw [List.nil_append] at hread
  generalize (new boundary save).feed text = fed at htext hread hnothing ⊢
  have hphase : fed.2.phase = .done := by
    cases hopen : fed.2.isDone with
    | true => simpa [isDone] using hopen
    | false =>
        rw [hnothing hopen, List.append_nil] at htext
        exact Phase.eq_done_of_firstBoundaryLine hread.phase hboundary (htext ▸ h)
  have hdone := hread.phase
  rw [hphase] at hdone
  obtain ⟨start', stop', hfirst, hlength⟩ :=
    (Phase.describes_done hdone).2 hboundary fed.1
  rw [← htext] at hfirst
  obtain ⟨rfl, rfl⟩ := h.unique hfirst
  refine ⟨by rw [isDone, hphase]; rfl, ?_⟩
  rw [htext, ← hlength, List.drop_left]

/-- Whatever it is fed, the scanner is done if and only if the text has a first
boundary line.  It then has taken in the text up to the line feed and has handed
the rest back, and otherwise it has handed back nothing.  Whichever bytes the
boundary consists of, what a scanner which is done has taken in ends with a
boundary line. -/
theorem feedAll_stops_behind_firstBoundaryLine (boundary : Bytes) (save : Bool)
    (chunks : List Bytes) :
    (Byte.lf ∉ boundary →
      ((feedAll Scanner.feed (.new boundary save) chunks).2.isDone = true ↔
        ∃ start stop, FirstBoundaryLine boundary chunks.flatten start stop) ∧
      (∀ start stop, FirstBoundaryLine boundary chunks.flatten start stop →
        (feedAll Scanner.feed (.new boundary save) chunks).1.flatten =
          chunks.flatten.drop (stop + 1) ∧
        (save = true →
          (feedAll Scanner.feed (.new boundary save) chunks).2.skipped =
            chunks.flatten.take (stop + 1))) ∧
      ((¬ ∃ start stop, FirstBoundaryLine boundary chunks.flatten start stop) →
        ∀ returned ∈ (feedAll Scanner.feed (.new boundary save) chunks).1,
          returned = [])) ∧
    ((feedAll Scanner.feed (.new boundary save) chunks).2.isDone = true →
      ∃ before padding, Byte.lf ∉ padding ∧
        chunks.flatten = before ++ pattern boundary ++ padding ++ [Byte.lf] ++
          (feedAll Scanner.feed (.new boundary save) chunks).1.flatten) := by
  obtain ⟨taken, htext, hread, hnothing⟩ :=
    (Scanner.hasRead_new boundary save).feeds chunks
  rw [List.nil_append] at hread
  generalize feedAll Scanner.feed (.new boundary save) chunks = fed at *
  have hdescribes := hread.phase
  -- Done, the phase tells where the first boundary line is.
  have hdone (h : fed.2.isDone = true) :
      Phase.done.Describes boundary taken := by
    have hphase : fed.2.phase = .done := by simpa [Scanner.isDone] using h
    rwa [hphase] at hdescribes
  -- A text without one keeps the scanner from its end, and one with it does not.
  have hline (hboundary : Byte.lf ∉ boundary) :
      fed.2.isDone = true ↔
        ∃ start stop, FirstBoundaryLine boundary chunks.flatten start stop := by
    constructor
    · intro h
      obtain ⟨start, stop, hfirst, -⟩ :=
        (Phase.describes_done (hdone h)).2 hboundary fed.1.flatten
      exact ⟨start, stop, htext ▸ hfirst⟩
    · rintro ⟨start, stop, hfirst⟩
      cases hopen : fed.2.isDone with
      | true => rfl
      | false =>
          rw [List.flatten_eq_nil_iff.mpr (hnothing hopen), List.append_nil] at htext
          rw [htext] at hfirst
          have := Phase.eq_done_of_firstBoundaryLine hdescribes hboundary hfirst
          simp [Scanner.isDone, this] at hopen
  refine ⟨fun hboundary => ⟨hline hboundary, ?_, ?_⟩, ?_⟩
  · intro start stop hfirst
    have h := (hline hboundary).mpr ⟨start, stop, hfirst⟩
    obtain ⟨start', stop', hfirst', hlength⟩ :=
      (Phase.describes_done (hdone h)).2 hboundary fed.1.flatten
    rw [htext] at hfirst
    obtain ⟨rfl, rfl⟩ := hfirst.unique hfirst'
    rw [htext, ← hlength, List.drop_left, List.take_left]
    exact ⟨rfl, hread.skipped_eq⟩
  · intro hnone
    apply hnothing
    cases hopen : fed.2.isDone with
    | true => exact absurd ((hline hboundary).mp hopen) hnone
    | false => rfl
  · intro h
    obtain ⟨before, padding, hclean, htaken⟩ := (Phase.describes_done (hdone h)).1
    exact ⟨before, padding, hclean, by rw [htext, htaken]⟩

/-- The boundary line of `foo`, after the line `--fo` which starts like it. -/
theorem feedAll_stops_behind_second_line :
    Byte.lf ∉ ([0x66, 0x6F, 0x6F] : Bytes) ∧
      (feedAll Scanner.feed (.new [0x66, 0x6F, 0x6F] true)
        [[0x0A, 0x2D, 0x2D, 0x66, 0x6F], [0x0A, 0x2D], [],
          [0x2D, 0x66, 0x6F, 0x6F, 0x20, 0x0A, 0x78], [0x79]]).2.isDone = true ∧
      ∃ start stop, FirstBoundaryLine [0x66, 0x6F, 0x6F]
        [0x0A, 0x2D, 0x2D, 0x66, 0x6F, 0x0A, 0x2D, 0x2D, 0x66, 0x6F, 0x6F, 0x20,
          0x0A, 0x78, 0x79] start stop := by
  have hboundary : Byte.lf ∉ ([0x66, 0x6F, 0x6F] : Bytes) := by decide
  have hdone : (feedAll Scanner.feed (.new [0x66, 0x6F, 0x6F] true)
        [[0x0A, 0x2D, 0x2D, 0x66, 0x6F], [0x0A, 0x2D], [],
          [0x2D, 0x66, 0x6F, 0x6F, 0x20, 0x0A, 0x78], [0x79]]).2.isDone = true := by
    decide
  exact ⟨hboundary, hdone,
    ((feedAll_stops_behind_firstBoundaryLine [0x66, 0x6F, 0x6F] true
      [[0x0A, 0x2D, 0x2D, 0x66, 0x6F], [0x0A, 0x2D], [],
        [0x2D, 0x66, 0x6F, 0x6F, 0x20, 0x0A, 0x78], [0x79]]).1 hboundary).1.mp hdone⟩

end Boundary

end StreamingHttp
