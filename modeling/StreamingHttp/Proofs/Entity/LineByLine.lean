import StreamingHttp.Proofs.Delimited
import StreamingHttp.Proofs.Entity.BlockReading

/-!
# Fields read line by line

While a header block is read, the field which a continuation would extend is kept next to
the values.  It depends on the lines so far only, so the values can be told without it.  A
line which starts with white space is a continuation, and every other one is a field line:
its name ends at the first colon, and a line without a colon is a name alone.

* `EntityBlock.valuesOf` reads the values of a field off the lines: one for each field line
  of its name, with the texts of the continuations right behind that line.
* `EntityBlock.raw_addLines` shows that this is what a block takes in, whatever it has taken
  in before.
* `EntityBlock.read_by_lines` is the same of a stream.  The limit for the length of a line
  is in no result: it only must not be too small.
-/

namespace StreamingHttp

open Transport

namespace EntityField

/-- The two fields have different names, in any case. -/
theorem named?_eq_some_iff {bytes : Bytes} {field : EntityField} :
    named? bytes = some field ↔ field.isNamed bytes = true := by
  have hdifferent : Bytes.sameIgnoringCase contentType.name contentLength.name = false := by
    decide
  by_cases htype : contentType.isNamed bytes = true
  · have hlength : contentLength.isNamed bytes = false := by
      rw [isNamed, Bytes.sameIgnoringCase, beq_iff_eq] at htype
      rw [isNamed, Bytes.sameIgnoringCase, htype]
      exact hdifferent
    cases field <;> simp [named?, htype, hlength]
  · cases field <;> simp [named?, htype]

end EntityField

namespace EntityFields

/-- The raw value of a field. -/
def raw (fields : EntityFields) : EntityField → Bytes
  | .contentType => fields.contentType
  | .contentLength => fields.contentLength

theorem ext_raw {fields other : EntityFields}
    (h : ∀ field, fields.raw field = other.raw field) : fields = other := by
  cases fields
  cases other
  rw [mk.injEq]
  exact ⟨h .contentType, h .contentLength⟩

theorem raw_append (fields : EntityFields) (field other : EntityField) (value : Bytes) :
    (fields.append field value).raw other =
      fields.raw other ++ if field = other then value else [] := by
  cases field <;> cases other <;> simp [append, raw]

end EntityFields

namespace EntityBlock

variable {block : EntityBlock} {line : Bytes} {lines before later : List Bytes}
  {field : EntityField}

/-! ### What a line says -/

/-- Whether a line continues the field before it. -/
def continues (line : Bytes) : Bool :=
  line.head?.any Byte.isSpace

/-- The name on a field line. -/
def lineName (line : Bytes) : Bytes :=
  Bytes.trimEnd Byte.isSpace (Delimited.upTo Byte.colon line)

/-- The value on a field line. -/
def lineValue (line : Bytes) : Bytes :=
  Bytes.trim Byte.isSpace (Delimited.behind Byte.colon line)

/-- Whether a line is a field line with the name of this field. -/
def names (field : EntityField) (line : Bytes) : Bool :=
  !continues line && field.isNamed (lineName line)

/-- The text of the continuations which come first. -/
def continuation (lines : List Bytes) : Bytes :=
  (lines.takeWhile continues).flatMap (Bytes.trim Byte.isSpace)

/-- The values of a field: one for each field line, with what continues it. -/
def valuesOf (field : EntityField) : List Bytes → List Bytes
  | [] => []
  | line :: later =>
      if names field line then (lineValue line ++ continuation later) :: valuesOf field later
      else valuesOf field later

/-- The fields which lines give, read without a state. -/
def fieldsOf (lines : List Bytes) : EntityFields where
  contentType := (valuesOf .contentType lines).flatten
  contentLength := (valuesOf .contentLength lines).flatten

theorem raw_fieldsOf (lines : List Bytes) (field : EntityField) :
    (fieldsOf lines).raw field = (valuesOf field lines).flatten := by
  cases field <;> rfl

theorem names_eq_false_of_continues (h : continues line = true) : names field line = false := by
  rw [names, h]
  rfl

theorem names_eq_isNamed (h : continues line = false) :
    names field line = field.isNamed (lineName line) := by
  rw [names, h]
  rfl

theorem continuation_cons_of_continues (h : continues line = true) :
    continuation (line :: later) = Bytes.trim Byte.isSpace line ++ continuation later := by
  rw [continuation, List.takeWhile_cons_of_pos h, List.flatMap_cons]
  rfl

/-- Continuations up to the next field line. -/
theorem continuation_append (h : ∀ line ∈ before, continues line = true)
    (hlater : ∀ next ∈ later.head?, continues next = false) :
    continuation (before ++ later) = before.flatMap (Bytes.trim Byte.isSpace) := by
  have hstops : later.takeWhile continues = [] := by
    cases later with
    | nil => rfl
    | cons next rest => exact List.takeWhile_cons_of_neg (by simp [hlater next rfl])
  rw [continuation, List.takeWhile_append_of_pos h, hstops, List.append_nil]

theorem continuation_of_not_continues (h : ∀ next ∈ lines.head?, continues next = false) :
    continuation lines = [] :=
  continuation_append (fun _ hline => absurd hline List.not_mem_nil) h

/-- Lines which do not name a field say nothing of it. -/
theorem valuesOf_append_of_unnamed (h : ∀ line ∈ before, names field line = false) :
    valuesOf field (before ++ lines) = valuesOf field lines := by
  induction before with
  | nil => rfl
  | cons line before ih =>
      obtain ⟨hline, hbefore⟩ := List.forall_mem_cons.mp h
      rw [List.cons_append, valuesOf, if_neg (by simp [hline]), ih hbefore]

theorem valuesOf_of_unnamed (h : ∀ line ∈ lines, names field line = false) :
    valuesOf field lines = [] := by
  have hnothing : valuesOf field (lines ++ []) = valuesOf field [] :=
    valuesOf_append_of_unnamed h
  simpa [valuesOf] using hnothing

/-- The only line which names a field has its only value. -/
theorem valuesOf_of_named_once
    (honce : ((before ++ line :: later).filter (names field)).length ≤ 1)
    (hnames : names field line = true) :
    valuesOf field (before ++ line :: later) = [lineValue line ++ continuation later] := by
  rw [List.filter_append, List.filter_cons_of_pos hnames, List.length_append,
    List.length_cons] at honce
  have hbefore : before.filter (names field) = [] := List.length_eq_zero_iff.mp (by omega)
  have hlater : later.filter (names field) = [] := List.length_eq_zero_iff.mp (by omega)
  rw [List.filter_eq_nil_iff] at hbefore hlater
  rw [valuesOf_append_of_unnamed (by simpa using hbefore), valuesOf, if_pos hnames,
    valuesOf_of_unnamed (by simpa using hlater)]

/-- Without continuations every field line has its own value. -/
theorem valuesOf_of_not_continues (h : ∀ line ∈ lines, continues line = false) :
    valuesOf field lines = (lines.filter (names field)).map lineValue := by
  induction lines with
  | nil => rfl
  | cons line later ih =>
      obtain ⟨-, hlater⟩ := List.forall_mem_cons.mp h
      have hnothing : continuation later = [] :=
        continuation_of_not_continues fun next hnext => hlater next (List.mem_of_head? hnext)
      rw [valuesOf, hnothing, List.append_nil, ih hlater, List.filter_cons]
      split <;> rfl

/-! ### One line -/

theorem current_addText (block : EntityBlock) (text : Bytes) :
    (block.addText text).current = block.current := by
  unfold addText
  split <;> rfl

/-- Text is added to the current field only. -/
theorem raw_addText (block : EntityBlock) (text : Bytes) (field : EntityField) :
    (block.addText text).fields.raw field =
      block.fields.raw field ++
        if block.current = some field then text.dropWhile Byte.isSpace else [] := by
  rw [addText]
  cases block.current with
  | none => simp
  | some found => simp only [EntityFields.raw_append, Option.some.injEq]

/-- Text behind the name of a field is added to the field of that name only. -/
theorem raw_addText_startField (block : EntityBlock) (name text : Bytes)
    (field : EntityField) :
    ((block.startField name).addText text).fields.raw field =
      block.fields.raw field ++
        if field.isNamed (Bytes.trimEnd Byte.isSpace name) then
          text.dropWhile Byte.isSpace
        else [] := by
  rw [raw_addText]
  simp only [startField, EntityField.named?_eq_some_iff]

/-- A line starts as it does without the white space at its end. -/
theorem continues_trimEnd (h : Bytes.trimEnd Byte.isSpace line ≠ []) :
    continues (Bytes.trimEnd Byte.isSpace line) = continues line := by
  rw [continues, Bytes.head?_trimEnd h, continues]

/-- A continuation adds its text to the field which is read. -/
theorem addLine_of_continues (h : Bytes.trimEnd Byte.isSpace line ≠ [])
    (hcontinues : continues line = true) :
    block.addLine (Bytes.trimEnd Byte.isSpace line) =
      block.addText (Bytes.trimEnd Byte.isSpace line) :=
  if_pos ((continues_trimEnd h).trans hcontinues)

/-- A field line starts the field which it names and adds what is behind its colon. -/
theorem addLine_of_not_continues (h : Bytes.trimEnd Byte.isSpace line ≠ [])
    (hfield : continues line = false) :
    block.addLine (Bytes.trimEnd Byte.isSpace line) =
      (block.startField (lineName line)).addText
        (Bytes.trimEnd Byte.isSpace (Delimited.behind Byte.colon line)) := by
  have hstarts : ¬ continues (Bytes.trimEnd Byte.isSpace line) = true := by
    rw [continues_trimEnd h, hfield]
    exact Bool.false_ne_true
  have hname (name : Bytes) :
      block.startField (Bytes.trimEnd Byte.isSpace name) = block.startField name := by
    rw [startField, startField, Bytes.trimEnd_trimEnd]
  rw [continues] at hstarts
  rw [addLine, if_neg hstarts, lineName, hname]
  obtain ⟨name, value, rfl, hcolon⟩ := Delimited.exists_cut Byte.colon line
  cases value with
  | none =>
      have hkept : Byte.colon ∉ Bytes.trimEnd Byte.isSpace name :=
        fun hmem => hcolon (Bytes.mem_of_mem_trimEnd hmem)
      rw [Delimited.suffix, List.append_nil, Delimited.cut_of_notMem hkept,
        Delimited.upTo_of_notMem hcolon, Delimited.behind_of_notMem hcolon]
      show (block.startField _).addText [] = _
      rw [hname]
      rfl
  | some value =>
      rw [Delimited.suffix, Bytes.trimEnd_append_cons rfl, Delimited.cut_append_cons hcolon,
        Delimited.upTo_append_cons hcolon, Delimited.behind_append_cons hcolon]
      rfl

/-- It adds its value to the field of its name only. -/
theorem raw_addLine_of_not_continues (h : Bytes.trimEnd Byte.isSpace line ≠ [])
    (hfield : continues line = false) (block : EntityBlock) (field : EntityField) :
    (block.addLine (Bytes.trimEnd Byte.isSpace line)).fields.raw field =
      block.fields.raw field ++
        if field.isNamed (lineName line) then lineValue line else [] := by
  rw [addLine_of_not_continues h hfield, raw_addText_startField, lineName,
    Bytes.trimEnd_trimEnd]
  rfl

theorem current_addLine_of_not_continues (h : Bytes.trimEnd Byte.isSpace line ≠ [])
    (hfield : continues line = false) (block : EntityBlock) (field : EntityField) :
    (block.addLine (Bytes.trimEnd Byte.isSpace line)).current = some field ↔
      field.isNamed (lineName line) = true := by
  rw [addLine_of_not_continues h hfield, current_addText, startField,
    EntityField.named?_eq_some_iff, lineName, Bytes.trimEnd_trimEnd]

/-! ### All lines -/

/-- Takes in lines which hold more than white space: what continues the current field, and
then the values of the lines behind it. -/
theorem raw_addLines (h : ∀ line ∈ lines, Bytes.trimEnd Byte.isSpace line ≠ [])
    (block : EntityBlock) (field : EntityField) :
    (block.addLines lines).fields.raw field =
      block.fields.raw field ++
        ((if block.current = some field then continuation lines else []) ++
          (valuesOf field lines).flatten) := by
  induction lines generalizing block with
  | nil => simp [addLines, valuesOf, continuation]
  | cons line later ih =>
      obtain ⟨hline, hlater⟩ := List.forall_mem_cons.mp h
      rw [addLines, List.foldl_cons, ← addLines, ih hlater, valuesOf]
      cases hstarts : continues line with
      | true =>
          rw [addLine_of_continues hline hstarts, current_addText, raw_addText,
            names_eq_false_of_continues hstarts, continuation_cons_of_continues hstarts]
          split <;> simp [Bytes.trim]
      | false =>
          -- The line changes the current field, so nothing continues the one before.
          have hnothing : continuation (line :: later) = [] :=
            continuation_of_not_continues (by simpa using hstarts)
          rw [raw_addLine_of_not_continues hline hstarts, names_eq_isNamed hstarts, hnothing,
            ite_self, List.nil_append]
          simp only [current_addLine_of_not_continues hline hstarts]
          split <;> simp

/-- A block which has taken in nothing else holds what its lines say. -/
theorem fields_addLines (h : ∀ line ∈ lines, Bytes.trimEnd Byte.isSpace line ≠ []) :
    (addLines {} lines).fields = fieldsOf lines := by
  have hempty (field : EntityField) : ({} : EntityBlock).fields.raw field = [] := by
    cases field <;> rfl
  refine EntityFields.ext_raw fun field => ?_
  rw [raw_addLines h, hempty, raw_fieldsOf]
  rfl

/-! ### Streams -/

variable {reader : Reader} {maxLine : Nat} {text : Bytes} {stop after : Events}
  {failure : Failure}

/-- What reading a block takes of a stream, and how it ends, can be told from the lines of
the stream up to its end or its first failure. -/
theorem agrees_read_lines (hcapacity : 0 < reader.capacity)
    (hevents : reader.events = .ofBytes text ++ stop)
    (hstop : Events.StopsWith failure stop after)
    (hfits : Fits (lineLimit maxLine) (Bytes.lines text) (Bytes.unterminated text)) :
    Agrees (EntityFields.read maxLine reader)
      (outcome failure stop after (Bytes.lines text) (Bytes.unterminated text)) := by
  obtain ⟨hlines, htail, htext⟩ := Bytes.exists_lines text
  have hshows : reader.Shows
      (.ofBytes ((Bytes.lines text).flatten ++ Bytes.unterminated text) ++ stop) :=
    ⟨hcapacity, by rw [hevents, ← htext]⟩
  exact hshows.agrees_read hlines htail hfits hstop

/-- A block which ends is read off the lines before its end. -/
theorem outcome_of_ending_eq_cons {tail blank : Bytes}
    (h : ending lines = blank :: later) :
    outcome failure stop after lines tail =
      .ok (fieldsOf (body lines)) (.ofBytes (later.flatten ++ tail) ++ stop) := by
  rw [outcome, ofLines?, h, fields_addLines trimEnd_ne_nil_of_mem_body]

theorem outcome_of_ending_eq_nil {tail : Bytes} (h : ending lines = []) :
    outcome failure stop after lines tail = .error failure after := by
  rw [outcome, ofLines?, h]

/-- The bytes of the stream up to its end or its first failure are text.  If no line of the
block is longer than the limit:

* with a line of white space only, the lines up to that one are taken, and the fields are
  those of the lines before it;
* without one reading fails, as the stream does;
* a field which no line names is empty, and one which a single line names has the value on
  this line and the texts of the continuations right behind it. -/
theorem read_by_lines (hcapacity : 0 < reader.capacity)
    (hevents : reader.events = .ofBytes text ++ stop)
    (hstop : Events.StopsWith failure stop after)
    (hfits : Fits (lineLimit maxLine) (Bytes.lines text) (Bytes.unterminated text)) :
    (∀ blank later, ending (Bytes.lines text) = blank :: later →
      ∃ last, EntityFields.read maxLine reader =
          .ok (fieldsOf (body (Bytes.lines text))) last ∧
        last.events = .ofBytes (later.flatten ++ Bytes.unterminated text) ++ stop) ∧
    (ending (Bytes.lines text) = [] →
      ∃ last, EntityFields.read maxLine reader = .error failure last ∧
        last.events = after) ∧
    ∀ field, ((body (Bytes.lines text)).filter (names field)).length ≤ 1 →
      ((∀ line ∈ body (Bytes.lines text), names field line = false) →
        (fieldsOf (body (Bytes.lines text))).raw field = []) ∧
      ∀ before line later, body (Bytes.lines text) = before ++ line :: later →
        names field line = true →
        (fieldsOf (body (Bytes.lines text))).raw field =
          lineValue line ++ continuation later := by
  have hread := agrees_read_lines hcapacity hevents hstop hfits
  refine ⟨fun blank later hending => ?_, fun hending => ?_, fun field honce => ?_⟩
  · rw [outcome_of_ending_eq_cons hending] at hread
    obtain ⟨last, hok, hlast⟩ := hread.exists_ok
    exact ⟨last, hok, hlast.events_eq⟩
  · rw [outcome_of_ending_eq_nil hending] at hread
    obtain ⟨last, herror, hlast⟩ := hread.exists_error
    exact ⟨last, herror, hlast.events_eq⟩
  · rw [raw_fieldsOf]
    refine ⟨fun hnone => ?_, fun before line later hbody hnames => ?_⟩
    · rw [valuesOf_of_unnamed hnone, List.flatten_nil]
    · rw [hbody] at honce ⊢
      rw [valuesOf_of_named_once honce hnames, List.flatten_singleton]

/-- A continuation before any field, a name with a space behind it on a line as long as the
limit, a form feed in front of a continuation, a line without a colon and a continuation of
it.  A form feed ends the block. -/
theorem read_by_lines_of_limit_length :
    let named := Utf8.ofString "content-TYPE : text/a;\r\n"
    let text := Utf8.ofString " lost\n" ++ named ++
      Utf8.ofString "\x0c b=c \nX-Other\n lost\nContent-Length:12\n\x0c\nbody"
    let dropped : Failure := ⟨.connectionReset, "reset"⟩
    let reader : Reader := { source := [.data text, .failure dropped], capacity := 5 }
    let stop : Events := [.failure dropped]
    let later := [Utf8.ofString "\x0c b=c \n", Utf8.ofString "X-Other\n",
      Utf8.ofString " lost\n", Utf8.ofString "Content-Length:12\n"]
    0 < reader.capacity ∧ reader.events = .ofBytes text ++ stop ∧
      Events.StopsWith dropped stop [] ∧
      Fits (lineLimit 24) (Bytes.lines text) (Bytes.unterminated text) ∧
      named.length = lineLimit 24 ∧
      (∃ last, EntityFields.read 24 reader =
          .ok ⟨Utf8.ofString "text/a;b=c", Utf8.ofString "12"⟩ last ∧
        last.events = .ofBytes (Utf8.ofString "body") ++ stop) ∧
      (fieldsOf (body (Bytes.lines text))).raw .contentType =
        lineValue named ++ continuation later := by
  intro named text dropped reader stop later
  have hevents : reader.events = .ofBytes text ++ stop := rfl
  have hstop : Events.StopsWith dropped stop [] := .failed dropped []
  have hfits : Fits (lineLimit 24) (Bytes.lines text) (Bytes.unterminated text) :=
    .of_forall (by decide +kernel) (by decide +kernel)
  have hbody : body (Bytes.lines text) = [Utf8.ofString " lost\n"] ++ named :: later := by
    decide +kernel
  have hending : ending (Bytes.lines text) = [Utf8.ofString "\x0c\n"] := by decide +kernel
  have hfields : fieldsOf (body (Bytes.lines text)) =
      ⟨Utf8.ofString "text/a;b=c", Utf8.ofString "12"⟩ := by decide +kernel
  have hrest : Bytes.unterminated text = Utf8.ofString "body" := by decide +kernel
  obtain ⟨hends, -, hvalues⟩ := read_by_lines (by decide) hevents hstop hfits
  obtain ⟨last, hread, hlast⟩ := hends _ _ hending
  rw [hfields] at hread
  rw [hrest] at hlast
  exact ⟨by decide, hevents, hstop, hfits, by decide +kernel, ⟨last, hread, hlast⟩,
    (hvalues .contentType (by decide +kernel)).2 _ _ _ hbody (by decide +kernel)⟩

end EntityBlock

end StreamingHttp
