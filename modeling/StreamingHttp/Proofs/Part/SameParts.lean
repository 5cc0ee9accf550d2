import StreamingHttp.Proofs.Part.IncrementalReading

/-!
# Both readers of parts see the same parts

A body whose header blocks are written field by field is read in two ways: by calls of
`nextPart` on a connection, until one gives nothing, and by the incremental reader which
is fed the bytes of the body.  However the bytes arrive and however they are cut, both
list as many parts as are written, with the same media types and the same lengths.
-/

namespace StreamingHttp

open Transport Header

namespace Connection

variable {boundary : Bytes} {connection : Connection}

/-- The calls of `nextPart` give these fields one after the other, and then nothing. -/
inductive GivesParts (boundary : Bytes) : Connection → List EntityFields → Prop
  | nil {connection after : Connection}
      (h : connection.nextPart boundary = .ok none after) :
      GivesParts boundary connection []
  | cons {connection after : Connection} {fields : EntityFields}
      {later : List EntityFields}
      (h : connection.nextPart boundary = .ok (some fields) after)
      (hlater : GivesParts boundary after later) :
      GivesParts boundary connection (fields :: later)

/-- There is one such list at most. -/
theorem GivesParts.unique {first second : List EntityFields}
    (hfirst : GivesParts boundary connection first)
    (hsecond : GivesParts boundary connection second) : first = second := by
  induction hfirst generalizing second with
  | nil h =>
      cases hsecond with
      | nil => rfl
      | cons hother =>
          rw [h] at hother
          cases hother
  | cons h hlater ih =>
      cases hsecond with
      | nil hother =>
          rw [h] at hother
          cases hother
      | cons hother hothers =>
          rw [h] at hother
          cases hother
          rw [ih hothers]

/-- A walk whose caller reads no content gives the fields of all parts. -/
theorem WalksThrough.givesParts {maxLine : Nat} {tail : Events}
    {parts : List (WrittenPart (lineLimit maxLine) boundary)}
    (h : WalksThrough tail parts connection) :
    GivesParts boundary connection (parts.map fun part => part.head.fields) := by
  induction parts generalizing connection with
  | nil =>
      obtain ⟨after, hnext, -⟩ := h
      exact .nil hnext
  | cons part later ih =>
      obtain ⟨fields, emptied, after, halone, hnext, -, hread⟩ := h
      obtain ⟨emptied', halone'⟩ := read_head_alone part.head
      rw [halone] at halone'
      cases halone'
      -- Reading nothing of the content leaves the connection as it is.
      obtain ⟨last, hlast, hlater⟩ := hread [] (Nat.zero_le _)
      cases hlast
      exact .cons hnext (ih hlater)

end Connection

/-! ### The same header block -/

/-- What a caller learns of a part from the reader of streams. -/
def EntityFields.seen (fields : EntityFields) : Bytes × Option Nat :=
  (fields.contentType, fields.length?)

/-- What a caller learns of a part from the incremental reader.  A media type which is
absent is empty. -/
def Part.Summary.seen (summary : Part.Summary) : Bytes × Option Nat :=
  (summary.contentType.getD [], summary.contentLength)

/-- Both learn the same from a header block. -/
theorem FieldHead.seen_summary {limit : Nat} (head : FieldHead limit) :
    head.summary.seen = head.toHead.fields.seen := by
  have htype : head.toHead.fields.contentType = (head.value? .contentType).getD [] :=
    head.raw_fields_toHead .contentType
  have hlength : head.toHead.fields.contentLength =
      (head.value? .contentLength).getD [] :=
    head.raw_fields_toHead .contentLength
  rw [EntityFields.seen, EntityFields.length?, htype, hlength, Part.Summary.seen, summary]
  cases head.value? .contentLength with
  | none => rfl
  | some value => rfl

/-! ### The same body -/

variable {connection : Connection} {tail : Events} {boundary : Bytes}

/-- The reader of streams gives the fields of the parts of a body. -/
theorem Connection.givesParts_fieldBody
    (hboundary : ∀ b ∈ boundary, Byte.isLineEnd b = false)
    (hcapacity : 0 < connection.reader.capacity)
    (parts : List (FieldPart (lineLimit connection.settings.maxLineLength) boundary))
    (ending : Option LineEnd)
    (hbody : connection.reader.events =
      Events.ofBytes (fieldBody boundary parts ending) ++ tail) :
    GivesParts boundary connection
      (parts.map fun part => part.fieldHead.toHead.fields) := by
  have hshows : connection.reader.Shows (Events.ofBytes
      ([] ++ writtenBody boundary (parts.map FieldPart.toWrittenPart)) ++
        (Events.ofBytes ((ending.map LineEnd.bytes).getD []) ++ tail)) := by
    refine ⟨hcapacity, ?_⟩
    rw [hbody, fieldBody, Events.ofBytes_append, List.nil_append, List.append_assoc]
  -- The line end behind the closing delimiter is left unread.
  have hwalk := walksThrough_of_noDelimiterBefore hboundary
    (parts.map FieldPart.toWrittenPart) (noDelimiterBefore_nil boundary) rfl hshows
  have hgives := hwalk.givesParts
  rw [List.map_map] at hgives
  have hfields : parts.map ((fun part => part.head.fields) ∘ FieldPart.toWrittenPart) =
      parts.map fun part => part.fieldHead.toHead.fields :=
    List.map_congr_left fun part _ => congrArg WrittenHead.fields part.head_eq
  rwa [hfields] at hgives

/-- However the bytes of a body are cut into chunks, and however they arrive at the
connection, the incremental reader records as many parts as are written, none of them
with a fault, and what it tells of them is what the calls of `nextPart` tell until one
gives nothing. -/
theorem feedAll_sees_same_parts
    (hboundary : ∀ b ∈ boundary, Byte.isLineEnd b = false)
    (hcapacity : 0 < connection.reader.capacity)
    (parts : List (FieldPart (lineLimit connection.settings.maxLineLength) boundary))
    (ending : Option LineEnd)
    (hbody : connection.reader.events =
      Events.ofBytes (fieldBody boundary parts ending) ++ tail)
    {chunks : List Bytes} (hchunks : chunks.flatten = fieldBody boundary parts ending) :
    let summaries := (feedAll Part.Reader.feed (.start boundary) chunks).1.flatten
    summaries.length = parts.length ∧
      (∀ summary ∈ summaries, summary.faults = []) ∧
      ∃ given, connection.GivesParts boundary given ∧
        summaries.map Part.Summary.seen = given.map EntityFields.seen := by
  intro summaries
  have hsummaries : summaries = parts.map fun part => part.fieldHead.summary :=
    Part.Reader.feedAll_fieldBody hboundary parts ending hchunks
  have hgives := connection.givesParts_fieldBody hboundary hcapacity parts ending hbody
  refine ⟨?_, ?_, _, hgives, ?_⟩
  · rw [hsummaries, List.length_map]
  · intro summary hmem
    rw [hsummaries] at hmem
    obtain ⟨part, -, rfl⟩ := List.mem_map.mp hmem
    rfl
  · rw [hsummaries, List.map_map, List.map_map]
    exact List.map_congr_left fun part _ => part.fieldHead.seen_summary

/-- A media type under a name in odd case, between blanks, and a length. -/
def blanksHead : FieldHead (lineLimit 40) where
  lines :=
    [{ name := Utf8.ofString "content-TYPE"
       value := Utf8.ofString " \ta/b \t"
       lineEnd := .crlf
       name_ne_nil := by decide
       name_clean := FieldLine.clean_of_all (by decide)
       value_clean := by decide +kernel },
      { name := Utf8.ofString "Content-Length"
        value := Utf8.ofString "004"
        lineEnd := .lf
        name_ne_nil := by decide
        name_clean := FieldLine.clean_of_all (by decide)
        value_clean := by decide +kernel }]
  blankEnd := .crlf
  noFormFeed := by decide
  once := by
    intro field
    cases field <;> decide
  fits := by decide
  blankFits := by decide

/-- A part of this head.  Its content looks like the start of a delimiter. -/
def blanksPart : FieldPart (lineLimit 40) [0x66] where
  padding := [Byte.tab]
  delimiterEnd := .crlf
  head := blanksHead.toHead
  fieldHead := blanksHead
  head_eq := rfl
  content := [Byte.dash, Byte.dash, Byte.lf, Byte.dash]
  contentEnd := .lf
  isBlank := by simp [Byte.isBlank]
  fits := by decide
  noDelimiter := by decide

/-- A block without fields. -/
def bareHead : FieldHead (lineLimit 40) where
  lines := []
  blankEnd := .lf
  noFormFeed := by decide
  once := fun _ => Nat.zero_le 1
  fits := by decide
  blankFits := by decide

/-- A part without fields and without content. -/
def barePart : FieldPart (lineLimit 40) [0x66] where
  padding := []
  delimiterEnd := .lf
  head := bareHead.toHead
  fieldHead := bareHead
  head_eq := rfl
  content := []
  contentEnd := .crlf
  isBlank := by simp [Byte.isBlank]
  fits := by decide
  noDelimiter := by decide

/-- A body of both parts. -/
def blanksBody : Bytes :=
  fieldBody [0x66] [blanksPart, barePart] (some .lf)

/-- A connection at which the body arrives in pieces, after its first two bytes. -/
def blanksConnection : Connection where
  reader :=
    { source :=
        [.data ((blanksBody.drop 2).take 50), .failure ⟨.interrupted, ""⟩,
          .data (blanksBody.drop 52)]
      buffer := blanksBody.take 2 }
  sink := {}
  settings := { maxLineLength := 40 }

/-- Both readers of the body, which the chunks cut in the middle of a delimiter. -/
theorem feedAll_sees_same_parts_blanks :
    (∀ b ∈ ([0x66] : Bytes), Byte.isLineEnd b = false) ∧
      0 < blanksConnection.reader.capacity ∧
      blanksConnection.reader.events = Events.ofBytes blanksBody ++ [] ∧
      [blanksBody.take 62, [], blanksBody.drop 62].flatten = blanksBody ∧
      (feedAll Part.Reader.feed (.start [0x66])
          [blanksBody.take 62, [], blanksBody.drop 62]).1.flatten.map Part.Summary.seen =
        [(Utf8.ofString "a/b", some 4), ([], none)] ∧
      ∃ given, blanksConnection.GivesParts [0x66] given ∧
        given.map EntityFields.seen = [(Utf8.ofString "a/b", some 4), ([], none)] := by
  have hboundary : ∀ b ∈ ([0x66] : Bytes), Byte.isLineEnd b = false := by
    intro b hb
    rw [List.mem_singleton.mp hb]
    rfl
  have hcapacity : 0 < blanksConnection.reader.capacity := by decide
  have hbody : blanksConnection.reader.events = Events.ofBytes blanksBody ++ [] := by
    decide
  have hchunks : [blanksBody.take 62, [], blanksBody.drop 62].flatten = blanksBody := by
    simp
  obtain ⟨-, -, given, hgiven, hsame⟩ := feedAll_sees_same_parts hboundary hcapacity
    [blanksPart, barePart] (some .lf) hbody hchunks
  have hseen : (feedAll Part.Reader.feed (.start [0x66])
      [blanksBody.take 62, [], blanksBody.drop 62]).1.flatten.map Part.Summary.seen =
        [(Utf8.ofString "a/b", some 4), ([], none)] := by
    rw [Part.Reader.feedAll_fieldBody hboundary [blanksPart, barePart] (some .lf) hchunks]
    decide
  exact ⟨hboundary, hcapacity, hbody, hchunks, hseen, given, hgiven,
    hsame.symm.trans hseen⟩

end StreamingHttp
