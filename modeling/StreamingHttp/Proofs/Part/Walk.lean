import StreamingHttp.Connection
import StreamingHttp.Proofs.Boundary.SearchPosition
import StreamingHttp.Proofs.Entity.HeadReading
import Mathlib.Algebra.GroupWithZero.Nat

/-!
# Walking through the parts of a body

A multipart body is written as one part after the other and a closing delimiter.
Each part is a delimiter with padding, a header block and a content, and ends with a
line end.

A connection walks through it: every call of `nextPart` gives the fields of the next
header block and leaves the stream at the first byte of the content, whichever part
of the content before it has been read, and one call more finds the closing
delimiter.  Three facts carry this:

* what is unread of a content and the line end behind it hold no delimiter, so the
  search stops behind the next one;
* the rest of the delimiter line is a line of its own, and does not start with a
  hyphen;
* a header block is read to its end and no further.
-/

namespace StreamingHttp

open Transport

/-- A part as it is written, with lines of up to `limit` bytes. -/
structure WrittenPart (limit : Nat) (boundary : Bytes) where
  padding : Bytes
  delimiterEnd : LineEnd
  head : WrittenHead limit
  content : Bytes
  contentEnd : LineEnd
  isBlank : ∀ b ∈ padding, Byte.isBlank b = true
  fits : (Boundary.delimiter boundary ++ padding ++ delimiterEnd.bytes).length ≤ limit
  noDelimiter : ¬ Boundary.delimiter boundary <:+: content

namespace WrittenPart

variable {limit : Nat} {boundary : Bytes}

/-- What follows the delimiter in its line. -/
def delimiterRest (part : WrittenPart limit boundary) : Bytes :=
  part.padding ++ part.delimiterEnd.bytes

/-- The bytes before the content. -/
def front (part : WrittenPart limit boundary) : Bytes :=
  Boundary.delimiter boundary ++ part.delimiterRest ++ part.head.bytes

/-- The bytes of a part. -/
def bytes (part : WrittenPart limit boundary) : Bytes :=
  part.front ++ part.content ++ part.contentEnd.bytes

theorem isLine_delimiterRest (part : WrittenPart limit boundary) :
    Bytes.IsLine part.delimiterRest := by
  refine part.delimiterEnd.isLine_append fun hmem => ?_
  have := part.isBlank Byte.lf hmem
  cases this

/-- The rest of a delimiter line does not look like a closing delimiter. -/
theorem head?_delimiterRest (part : WrittenPart limit boundary) :
    part.delimiterRest.head? ≠ some Byte.dash := by
  intro hdash
  rcases List.mem_append.mp (List.mem_of_mem_head? hdash) with hblank | hend
  · have := part.isBlank Byte.dash hblank
    cases this
  · have := part.delimiterEnd.isLineEnd Byte.dash hend
    cases this

theorem length_delimiterRest_le (part : WrittenPart limit boundary) :
    part.delimiterRest.length ≤ limit := by
  have := part.fits
  simp only [delimiterRest, List.length_append] at this ⊢
  omega

end WrittenPart

/-- The bytes of a body: its parts and the closing delimiter. -/
def writtenBody {limit : Nat} (boundary : Bytes)
    (parts : List (WrittenPart limit boundary)) : Bytes :=
  (parts.map WrittenPart.bytes).flatten ++ Boundary.delimiter boundary ++
    [Byte.dash, Byte.dash]

theorem writtenBody_cons {limit : Nat} {boundary : Bytes}
    (part : WrittenPart limit boundary) (later : List (WrittenPart limit boundary)) :
    writtenBody boundary (part :: later) =
      part.front ++ (part.content ++ part.contentEnd.bytes ++
        writtenBody boundary later) := by
  simp [writtenBody, WrittenPart.bytes]

/-- A delimiter which is written behind this text is the first one. -/
def NoDelimiterBefore (boundary text : Bytes) : Prop :=
  ∀ rest, Boundary.FirstOccurrence (Boundary.delimiter boundary)
    (text ++ Boundary.delimiter boundary ++ rest) text.length

theorem noDelimiterBefore_nil (boundary : Bytes) : NoDelimiterBefore boundary [] := by
  intro rest
  refine ⟨Boundary.occursAt_length [] _ rest, fun earlier hearlier => ?_⟩
  exact absurd hearlier (Nat.not_lt_zero earlier)

/-- Nothing of a content and its line end is taken for a delimiter, wherever the
caller has stopped reading. -/
theorem WrittenPart.noDelimiterBefore {limit : Nat} {boundary : Bytes}
    (hboundary : ∀ b ∈ boundary, Byte.isLineEnd b = false)
    (part : WrittenPart limit boundary) (count : Nat) :
    NoDelimiterBefore boundary (part.content.drop count ++ part.contentEnd.bytes) := by
  intro rest
  refine Boundary.firstOccurrence_behind_separator ?_ part.contentEnd.ne_nil ?_
  · intro hwithin
    exact part.noDelimiter (hwithin.trans (List.drop_suffix count _).isInfix)
  · intro b hb hmem
    have hend := part.contentEnd.isLineEnd b hb
    have hnot : Byte.isLineEnd b = false := by
      rcases List.mem_cons.mp hmem with rfl | hmem
      · rfl
      · rcases List.mem_cons.mp hmem with rfl | hmem
        · rfl
        · exact hboundary b hmem
    rw [hend] at hnot
    cases hnot

/-! ### One part -/

namespace Part

variable {events : Events} {reader : Transport.Reader} {maxLine : Nat} {boundary : Bytes}

/-- A line feed right behind the delimiter ends its line. -/
theorem finishDelimiter_of_lf {after : Transport.Reader}
    (h : reader.readExact 1 = .ok [Byte.lf] after) :
    finishDelimiter maxLine reader = .ok false after := by
  have hdash : ([Byte.lf] : Bytes) ≠ [Byte.dash] := by decide
  simp only [finishDelimiter, bind, EStateM.bind, readOne, h, if_neg hdash]
  rfl

/-- Any other byte than a hyphen or a line feed leaves a line to be dropped. -/
theorem finishDelimiter_of_line {b : UInt8} {line : Bytes}
    {middle after : Transport.Reader}
    (hdash : b ≠ Byte.dash) (hlf : b ≠ Byte.lf)
    (hfirst : reader.readExact 1 = .ok [b] middle)
    (hline : middle.line maxLine = .ok line after) :
    finishDelimiter maxLine reader = .ok false after := by
  have hdash' : [b] ≠ [Byte.dash] := by simpa using hdash
  have hlf' : [b] ≠ [Byte.lf] := by simpa using hlf
  simp only [finishDelimiter, bind, EStateM.bind, readOne, hfirst, pure,
    EStateM.pure, hdash', hlf', false_and, if_false, skipLine, hline]

/-- The rest of a delimiter line is read to its end. -/
theorem finishDelimiter_of_isLine {line : Bytes}
    (h : reader.Shows (.ofBytes line ++ events)) (hline : Bytes.IsLine line)
    (hdash : line.head? ≠ some Byte.dash) (hlength : line.length ≤ lineLimit maxLine) :
    ∃ after, finishDelimiter maxLine reader = .ok false after ∧ after.Shows events := by
  obtain ⟨body, hbody, rfl⟩ := hline
  cases body with
  | nil =>
      obtain ⟨after, hread, hafter⟩ := h.readExact_one
      exact ⟨after, finishDelimiter_of_lf hread, hafter⟩
  | cons b body =>
      -- After one byte of the padding the rest of the line is a line.
      rw [List.mem_cons, not_or] at hbody
      obtain ⟨middle, hread, hmiddle⟩ := h.readExact_one
      have hshorter : (body ++ [Byte.lf]).length ≤ lineLimit maxLine :=
        Nat.le_of_succ_le hlength
      obtain ⟨after, hrest, hafter⟩ :=
        hmiddle.line_of_isLine ⟨body, hbody.2, rfl⟩ hshorter
      have hb : b ≠ Byte.dash := by simpa using hdash
      exact ⟨after, finishDelimiter_of_line hb (Ne.symm hbody.1) hread hrest, hafter⟩

/-- Two hyphens behind the delimiter close the body. -/
theorem finishDelimiter_of_dashes (maxLine : Nat)
    (h : reader.Shows (.ofBytes [Byte.dash, Byte.dash] ++ events)) :
    ∃ after, finishDelimiter maxLine reader = .ok true after ∧ after.Shows events := by
  obtain ⟨middle, hfirst, hmiddle⟩ := h.readExact_one
  obtain ⟨after, hsecond, hafter⟩ := hmiddle.readExact_one
  refine ⟨after, ?_, hafter⟩
  simp only [finishDelimiter, bind, EStateM.bind, readOne, hfirst, if_true, hsecond]
  rfl

section Next

variable {text rest : Bytes}

/-- The text up to the first delimiter, and the delimiter, are skipped. -/
theorem skipDelimiter_of_noDelimiterBefore (htext : NoDelimiterBefore boundary text)
    (h : reader.Shows
      (.ofBytes (text ++ Boundary.delimiter boundary ++ rest) ++ events)) :
    ∃ after, skipDelimiter boundary reader = .ok () after ∧
      after.Shows (.ofBytes rest ++ events) := by
  obtain ⟨-, after, hresult, hafter⟩ := h.search (htext rest) none
  rw [← List.length_append, List.drop_left] at hafter
  exact ⟨after, hresult, hafter⟩

/-- The next part is read up to its content. -/
theorem next_of_part (htext : NoDelimiterBefore boundary text)
    (part : WrittenPart (lineLimit maxLine) boundary)
    (h : reader.Shows (.ofBytes (text ++ (part.front ++ rest)) ++ events)) :
    ∃ after, next maxLine boundary reader = .ok (some part.head.fields) after ∧
      after.Shows (.ofBytes rest ++ events) := by
  have hlayout : text ++ (part.front ++ rest) = text ++ Boundary.delimiter boundary ++
      (part.delimiterRest ++ (part.head.bytes ++ rest)) := by
    simp [WrittenPart.front]
  rw [hlayout] at h
  obtain ⟨behind, hskip, hbehind⟩ := skipDelimiter_of_noDelimiterBefore htext h
  rw [Events.ofBytes_append, List.append_assoc] at hbehind
  obtain ⟨atHead, hfinish, hhead⟩ := finishDelimiter_of_isLine hbehind
    part.isLine_delimiterRest part.head?_delimiterRest part.length_delimiterRest_le
  rw [Events.ofBytes_append, List.append_assoc] at hhead
  obtain ⟨after, hread, hafter⟩ := hhead.read_head part.head
  refine ⟨after, ?_, hafter⟩
  simp only [next, bind, EStateM.bind, hskip, hfinish, Bool.false_eq_true, if_false,
    hread]
  rfl

/-- The closing delimiter is read to its end. -/
theorem next_of_closing (htext : NoDelimiterBefore boundary text) (maxLine : Nat)
    (h : reader.Shows (.ofBytes (text ++ Boundary.delimiter boundary ++
      [Byte.dash, Byte.dash]) ++ events)) :
    ∃ after, next maxLine boundary reader = .ok none after ∧ after.Shows events := by
  obtain ⟨behind, hskip, hbehind⟩ := skipDelimiter_of_noDelimiterBefore htext h
  obtain ⟨after, hfinish, hafter⟩ := finishDelimiter_of_dashes maxLine hbehind
  refine ⟨after, ?_, hafter⟩
  simp only [next, bind, EStateM.bind, hskip, hfinish, if_true]
  rfl

end Next

end Part

/-! ### All parts -/

namespace Connection

/-- Reads so many bytes, and so many more, and so on. -/
def readEach (connection : Connection) :
    List Nat → EStateM.Result Failure Connection Bytes
  | [] => .ok [] connection
  | count :: later =>
      match connection.readExact count with
      | .error failure after => .error failure after
      | .ok bytes after =>
          match after.readEach later with
          | .error failure last => .error failure last
          | .ok more last => .ok (bytes ++ more) last

/-- Every call of `nextPart` gives the fields which the next header block has on its
own, and leaves the stream at the content behind it.  The caller may read this
content up to any byte, and then this holds for the later parts.  The call after the
last part gives nothing, and leaves the stream behind the closing delimiter. -/
def WalksThrough {maxLine : Nat} {boundary : Bytes} (tail : Events) :
    List (WrittenPart (lineLimit maxLine) boundary) → Connection → Prop
  | [], connection =>
      ∃ after, connection.nextPart boundary = .ok none after ∧
        after.reader.events = tail
  | part :: later, connection =>
      ∃ fields emptied after,
        EntityFields.read maxLine { source := [.data part.head.bytes] } =
          .ok fields emptied ∧
        connection.nextPart boundary = .ok (some fields) after ∧
        after.reader.events = .ofBytes (part.content ++ part.contentEnd.bytes ++
          writtenBody boundary later) ++ tail ∧
        ∀ counts : List Nat, counts.sum ≤ part.content.length →
          ∃ last, after.readEach counts = .ok (part.content.take counts.sum) last ∧
            WalksThrough tail later last

variable {connection : Connection} {events tail : Events} {maxLine : Nat}
  {boundary : Bytes}

/-- Bytes which are there are read, in any portions. -/
theorem readEach_of_shows (connection : Connection) {counts : List Nat} {text : Bytes}
    (h : connection.reader.Shows (.ofBytes text ++ events))
    (hcounts : counts.sum ≤ text.length) :
    ∃ reader : Reader, connection.readEach counts =
        .ok (text.take counts.sum) { connection with reader } ∧
      reader.Shows (.ofBytes (text.drop counts.sum) ++ events) := by
  induction counts generalizing connection text with
  | nil => exact ⟨connection.reader, rfl, h⟩
  | cons count later ih =>
      rw [List.sum_cons] at hcounts ⊢
      have hcount : (text.take count).length = count := by
        rw [List.length_take]
        omega
      have hlater : later.sum ≤ (text.drop count).length := by
        rw [List.length_drop]
        omega
      rw [← List.take_append_drop count text, Events.ofBytes_append,
        List.append_assoc] at h
      obtain ⟨middle, hread, hmiddle⟩ := h.readExact_ofBytes
      rw [hcount] at hread
      obtain ⟨last, hrest, hlast⟩ :=
        ih { connection with reader := middle } hmiddle hlater
      refine ⟨last, ?_, ?_⟩
      · rw [readEach, readExact, hread, List.take_add]
        simp only [hrest]
      · rwa [List.drop_drop] at hlast

/-- A header block on its own is read like one in a stream. -/
theorem read_head_alone (head : WrittenHead (lineLimit maxLine)) :
    ∃ emptied, EntityFields.read maxLine { source := [.data head.bytes] } =
      .ok head.fields emptied := by
  have hshows : Reader.Shows (Events.ofBytes head.bytes ++ [])
      { source := [.data head.bytes] } := by
    refine ⟨Nat.succ_pos _, ?_⟩
    have hbytes : ¬ head.bytes.isEmpty := by
      simp [WrittenHead.bytes, WrittenHead.lastLine]
    simp only [Reader.events, Source.events, if_neg hbytes]
    rfl
  obtain ⟨emptied, hread, -⟩ := hshows.read_head head
  exact ⟨emptied, hread⟩

/-- The walk from a text which is skipped first, such as what is unread of a
content. -/
theorem walksThrough_of_noDelimiterBefore
    (hboundary : ∀ b ∈ boundary, Byte.isLineEnd b = false)
    (parts : List (WrittenPart (lineLimit maxLine) boundary)) {text : Bytes}
    (htext : NoDelimiterBefore boundary text)
    (hmaxLine : connection.settings.maxLineLength = maxLine)
    (h : connection.reader.Shows
      (.ofBytes (text ++ writtenBody boundary parts) ++ tail)) :
    WalksThrough tail parts connection := by
  induction parts generalizing connection text with
  | nil =>
      rw [writtenBody, List.map_nil, List.flatten_nil, List.nil_append,
        ← List.append_assoc] at h
      obtain ⟨after, hnext, hafter⟩ := Part.next_of_closing htext maxLine h
      refine ⟨{ connection with reader := after }, ?_, hafter.events_eq⟩
      rw [nextPart, hmaxLine, hnext]
  | cons part later ih =>
      rw [writtenBody_cons] at h
      obtain ⟨reader, hnext, hreader⟩ := Part.next_of_part htext part h
      obtain ⟨emptied, halone⟩ := read_head_alone part.head
      refine ⟨part.head.fields, emptied,
        { connection with reader, fields := part.head.fields }, halone, ?_,
        hreader.events_eq, fun counts hcounts => ?_⟩
      · rw [nextPart, hmaxLine, hnext]
      · -- What is left of the content, and its line end, are skipped by the next call.
        have hinside : counts.sum ≤ (part.content ++ part.contentEnd.bytes ++
            writtenBody boundary later).length := by
          rw [List.append_assoc, List.length_append]
          omega
        obtain ⟨last, hread, hlast⟩ := readEach_of_shows
          { connection with reader, fields := part.head.fields } hreader hinside
        rw [List.append_assoc, List.take_append_of_le_length hcounts] at hread
        rw [List.append_assoc, List.drop_append_of_le_length hcounts,
          ← List.append_assoc] at hlast
        exact ⟨_, hread, ih (part.noDelimiterBefore hboundary counts.sum) hmaxLine hlast⟩

/-- Given a body which is written well, however its bytes are cut into arrivals and
whatever of them is buffered, the calls of `nextPart` walk through its parts. -/
theorem walksThrough_writtenBody
    (hboundary : ∀ b ∈ boundary, Byte.isLineEnd b = false)
    (hcapacity : 0 < connection.reader.capacity)
    (parts : List (WrittenPart (lineLimit connection.settings.maxLineLength) boundary))
    (hbody : connection.reader.events =
      Events.ofBytes (writtenBody boundary parts) ++ tail) :
    WalksThrough tail parts connection :=
  walksThrough_of_noDelimiterBefore hboundary parts (noDelimiterBefore_nil boundary) rfl
    ⟨hcapacity, hbody⟩

/-- A part whose content looks like the start of a delimiter. -/
def dashedPart : WrittenPart (lineLimit 0) [0x66] where
  padding := [Byte.space]
  delimiterEnd := .crlf
  head :=
    { lines := [[0x41, 0x3A, 0x62, Byte.lf]]
      returns := 1
      isLine := by
        intro line hline
        rw [List.mem_singleton.mp hline]
        exact ⟨[0x41, 0x3A, 0x62], by decide, rfl⟩
      hasText := by decide
      fits := by decide
      returnsFit := by decide }
  content := [Byte.dash, Byte.dash]
  contentEnd := .lf
  isBlank := by simp [Byte.isBlank]
  fits := by decide
  noDelimiter := by decide

/-- Two such parts, of which some bytes are buffered, and an interrupted read among the
others. -/
def dashedConnection : Connection where
  reader :=
    { source :=
        [.data [0x66, 0x20, 0x0D], .failure ⟨.interrupted, ""⟩,
          .data [0x0A, 0x41, 0x3A, 0x62, 0x0A, 0x0D, 0x0A, 0x2D, 0x2D, 0x0A, 0x2D],
          .data [0x2D, 0x66, 0x20, 0x0D, 0x0A, 0x41, 0x3A, 0x62, 0x0A, 0x0D, 0x0A, 0x2D,
            0x2D, 0x0A, 0x2D, 0x2D, 0x66, 0x2D, 0x2D, 0x7A]]
      buffer := [0x2D, 0x2D] }
  sink := {}
  settings := { maxLineLength := 0 }

/-- The walk through two parts which look like delimiters. -/
theorem walksThrough_dashedParts :
    (∀ b ∈ ([0x66] : Bytes), Byte.isLineEnd b = false) ∧
      0 < dashedConnection.reader.capacity ∧
      dashedConnection.reader.events =
        Events.ofBytes (writtenBody [0x66] [dashedPart, dashedPart]) ++ [.byte 0x7A] ∧
      WalksThrough [.byte 0x7A] [dashedPart, dashedPart] dashedConnection := by
  have hboundary : ∀ b ∈ ([0x66] : Bytes), Byte.isLineEnd b = false := by
    intro b hb
    rw [List.mem_singleton.mp hb]
    rfl
  have hcapacity : 0 < dashedConnection.reader.capacity := by decide
  have hbody : dashedConnection.reader.events =
      Events.ofBytes (writtenBody [0x66] [dashedPart, dashedPart]) ++ [.byte 0x7A] := by
    decide
  exact ⟨hboundary, hcapacity, hbody,
    walksThrough_writtenBody hboundary hcapacity [dashedPart, dashedPart] hbody⟩

end Connection

end StreamingHttp
