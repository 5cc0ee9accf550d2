import StreamingHttp.Proofs.Entity.FieldHead
import StreamingHttp.Proofs.Header.ChunkIndependence

/-!
# Two readers of folded fields

A field may be written over several lines.  The reader of streams appends the texts of
these lines to the value of the field which it has started, and forgets a field which it
does not keep.  The header parser keeps the first and the last position of the value, and
unfolds what lies between them when it is asked.

`SharePieces` relates what they say: there are pieces which one joins without anything
between them and the other by one space.  `FoldedHead.read_alike` shows it of all blocks
in which neither of the two fields is repeated and no text holds a form feed, with any
bytes behind them.
-/

namespace StreamingHttp

open Header Transport

/-! ### Continuations -/

namespace Header

namespace ContinuationLine

variable (line : ContinuationLine)

theorem exists_text (h : Byte.ff ∉ line.text) : ∃ b ∈ line.text, Byte.isSpace b = false := by
  obtain ⟨b, hb, hblank⟩ := line.hasText
  refine ⟨b, hb, ?_⟩
  rw [Byte.isSpace_eq_isBlank (line.clean b hb) fun heq => h (heq ▸ hb)]
  exact hblank

/-- A continuation starts with a blank, and this is white space. -/
theorem continues_bytes : EntityBlock.continues line.bytes = true := by
  have hstarts := line.starts
  rw [isContinuation, Option.any_eq_true] at hstarts
  obtain ⟨first, hfirst, hblank⟩ := hstarts
  rw [EntityBlock.continues, bytes, List.head?_append, hfirst, Option.some_or,
    Option.any_some, Byte.isSpace, hblank, Bool.true_or, Bool.true_or]

theorem trim_bytes (h : Byte.ff ∉ line.text) :
    Bytes.trim Byte.isSpace line.bytes = line.piece := by
  have hpiece : Bytes.trim Byte.isSpace line.text = line.piece :=
    Bytes.trim_isSpace_eq line.clean h
  rw [Bytes.trim, bytes, line.lineEnd.trimEnd_append]
  exact hpiece

end ContinuationLine

end Header

namespace EntityBlock

/-- A field line with its continuations has its pieces as one value, if it names the field.
Another field line follows, or nothing. -/
theorem valuesOf_folded_append {written : FoldedField} (hvalue : Byte.ff ∉ written.value)
    (hlater : ∀ line ∈ written.continuations, Byte.ff ∉ line.text) {rest : List Bytes}
    (hrest : ∀ next ∈ rest.head?, continues next = false) (field : EntityField) :
    valuesOf field (written.lines ++ rest) =
      (if field.isNamed written.name then [written.pieces.flatten] else []) ++
        valuesOf field rest := by
  have hcontinues : ∀ text ∈ written.continuations.map ContinuationLine.bytes,
      continues text = true := by
    intro text htext
    obtain ⟨line, -, rfl⟩ := List.mem_map.mp htext
    exact line.continues_bytes
  have hpieces : written.pieces.flatten = written.header.2 ++
      written.continuations.flatMap ContinuationLine.piece := by
    rw [FoldedField.pieces, List.flatten_filter_ne_nil]
    rfl
  have htrim : (written.continuations.map ContinuationLine.bytes).flatMap
        (Bytes.trim Byte.isSpace) =
      written.continuations.flatMap ContinuationLine.piece := by
    rw [List.flatMap_map]
    exact List.flatMap_congr fun line hline => line.trim_bytes (hlater line hline)
  rw [FoldedField.lines, List.cons_append, valuesOf, continuation_append hcontinues hrest,
    valuesOf_append_of_unnamed fun text htext =>
      names_eq_false_of_continues (hcontinues text htext),
    written.names_bytes, written.lineValue_bytes hvalue, htrim, ← hpieces]
  split <;> rfl

/-- The values of a field are the pieces of the fields of its name. -/
theorem valuesOf_foldedFields {written : List FoldedField}
    (h : ∀ field ∈ written, Byte.ff ∉ field.value ∧
      ∀ line ∈ field.continuations, Byte.ff ∉ line.text) (field : EntityField) :
    valuesOf field (written.flatMap FoldedField.lines) =
      (written.filter fun other => field.isNamed other.name).map
        fun other => other.pieces.flatten := by
  induction written with
  | nil => rfl
  | cons first later ih =>
      obtain ⟨⟨hvalue, hcontinuations⟩, hlater⟩ := List.forall_mem_cons.mp h
      have hnext : ∀ next ∈ (later.flatMap FoldedField.lines).head?,
          continues next = false := by
        cases later with
        | nil => exact fun next hnext => absurd hnext (Option.not_mem_none next)
        | cons second rest =>
            rintro next ⟨⟩
            exact second.continues_bytes
      rw [List.flatMap_cons, valuesOf_folded_append hvalue hcontinuations hnext, ih hlater,
        List.filter_cons]
      split <;> rfl

end EntityBlock

/-! ### Pieces -/

/-- What two readers say of a field.  The raw value is the pieces of the field, joined
without anything between them.  The other value is the same pieces, joined by one space;
it may be absent if there are none. -/
structure SharePieces (pieces : List Bytes) (raw : Bytes) (value? : Option Bytes) :
    Prop where
  ne_nil : ∀ piece ∈ pieces, piece ≠ []
  trimmed : ∀ piece ∈ pieces, Bytes.trim Byte.isSpace piece = piece
  raw_eq : raw = pieces.flatten
  value_eq : value? = some ([Byte.space].intercalate pieces) ∨ pieces = [] ∧ value? = none

/-- Of one piece at most both make the same. -/
theorem SharePieces.eq_of_length_le {pieces : List Bytes} {raw : Bytes}
    {value? : Option Bytes} (h : SharePieces pieces raw value?)
    (hlength : pieces.length ≤ 1) : raw = value?.getD [] := by
  rw [h.raw_eq]
  match pieces, hlength, h.value_eq with
  | [], _, .inl hvalue => simp [hvalue]
  | [], _, .inr hnone => simp [hnone.2]
  | [piece], _, .inl hvalue => simp [hvalue]

/-- Pieces are trimmed of white space, because they hold none but blanks. -/
theorem Header.FoldedField.trim_of_mem_pieces {written : FoldedField}
    (hvalue : Byte.ff ∉ written.value)
    (hlater : ∀ line ∈ written.continuations, Byte.ff ∉ line.text) :
    ∀ piece ∈ written.pieces, Bytes.trim Byte.isSpace piece = piece := by
  intro piece hpiece
  obtain ⟨text, rfl⟩ : ∃ text, piece = Bytes.trim Byte.isSpace text := by
    rcases List.mem_cons.mp (List.mem_of_mem_filter hpiece) with rfl | hmem
    · exact ⟨written.value, (Bytes.trim_isSpace_eq written.value_clean hvalue).symm⟩
    · obtain ⟨line, hline, rfl⟩ := List.mem_map.mp hmem
      exact ⟨line.text, (Bytes.trim_isSpace_eq line.clean (hlater line hline)).symm⟩
  exact Bytes.trim_trim text

/-! ### Whole blocks -/

/-- A block of folded fields as it is written, with lines of up to `limit` bytes. -/
structure FoldedHead (limit : Nat) where
  fields : List FoldedField
  blankEnd : LineEnd
  noFormFeed : ∀ field ∈ fields, Byte.ff ∉ field.value ∧
    ∀ line ∈ field.continuations, Byte.ff ∉ line.text
  once : ∀ field : EntityField,
    (fields.filter fun written => field.isNamed written.name).length ≤ 1
  fits : ∀ line ∈ fields.flatMap FoldedField.lines, line.length ≤ limit
  blankFits : blankEnd.bytes.length ≤ limit

namespace FoldedHead

variable {limit : Nat} (head : FoldedHead limit)

/-- The bytes of a block. -/
def bytes (head : FoldedHead limit) : Bytes :=
  (head.fields.flatMap FoldedField.lines).flatten ++ head.blankEnd.bytes

/-- The pieces of a field. -/
def pieces (head : FoldedHead limit) (field : EntityField) : List Bytes :=
  ((head.fields.find? fun written => field.isNamed written.name).map
    FoldedField.pieces).getD []

/-- Whether no line continues a field. -/
def IsPlain (head : FoldedHead limit) (field : EntityField) : Prop :=
  ∀ written ∈ head.fields, field.isNamed written.name = true → written.continuations = []

/-- The fields which the reader of streams finds. -/
def entityFields (head : FoldedHead limit) : EntityFields :=
  (EntityBlock.addLines {} (head.fields.flatMap FoldedField.lines)).fields

/-- Every line holds a colon or the text of a continuation. -/
theorem trimEnd_ne_nil_of_mem_lines :
    ∀ line ∈ head.fields.flatMap FoldedField.lines,
      Bytes.trimEnd Byte.isSpace line ≠ [] := by
  intro line hmem
  obtain ⟨written, hwritten, hline⟩ := List.mem_flatMap.mp hmem
  rcases List.mem_cons.mp hline with rfl | hlater
  · exact Bytes.trimEnd_ne_nil_iff.mpr written.hasText_bytes
  · obtain ⟨continuation, hcontinuation, rfl⟩ := List.mem_map.mp hlater
    obtain ⟨b, hb, hspace⟩ := continuation.exists_text
      ((head.noFormFeed written hwritten).2 continuation hcontinuation)
    exact Bytes.trimEnd_ne_nil_iff.mpr ⟨b, List.mem_append_left _ hb, hspace⟩

theorem isLine_of_mem_lines :
    ∀ line ∈ head.fields.flatMap FoldedField.lines, Bytes.IsLine line := by
  intro line hmem
  obtain ⟨written, -, hline⟩ := List.mem_flatMap.mp hmem
  exact (written.isLine_of_mem_lines line hline).1

/-- The reader of streams finds the pieces of a field, one behind the other. -/
theorem raw_entityFields (field : EntityField) :
    head.entityFields.raw field = (head.pieces field).flatten := by
  have honce := head.once field
  rw [entityFields, EntityBlock.fields_addLines head.trimEnd_ne_nil_of_mem_lines,
    EntityBlock.raw_fieldsOf, EntityBlock.valuesOf_foldedFields head.noFormFeed, pieces,
    ← List.head?_filter]
  generalize (head.fields.filter fun written => field.isNamed written.name) = named
    at honce ⊢
  match named, honce with
  | [], _ => rfl
  | [written], _ => simp

/-- The parser finds the pieces of a field, joined by one space. -/
theorem sharePieces {parser : Parser}
    (h : parser.headers = head.fields.map FoldedField.folded) (field : EntityField) :
    SharePieces (head.pieces field) (head.entityFields.raw field)
      (parser.valueOf? field.isNamed) := by
  have hvalue : parser.valueOf? field.isNamed =
      (head.fields.find? fun written => field.isNamed written.name).map
        fun written => [Byte.space].intercalate written.pieces := by
    rw [Parser.valueOf?, h, List.find?_map, Option.map_map]
    rfl
  have hraw := head.raw_entityFields field
  rw [pieces] at hraw ⊢
  rw [hvalue]
  cases hfound : head.fields.find? fun written => field.isNamed written.name with
  | none =>
      rw [hfound] at hraw
      exact ⟨by simp, by simp, hraw, .inr ⟨rfl, rfl⟩⟩
  | some written =>
      rw [hfound] at hraw
      obtain ⟨hclean, hlater⟩ := head.noFormFeed written (List.mem_of_find?_eq_some hfound)
      refine ⟨fun piece hpiece => ?_, ?_, hraw, .inl rfl⟩
      · simpa using List.of_mem_filter hpiece
      · exact FoldedField.trim_of_mem_pieces hclean hlater

/-- A field without continuations has one piece at most. -/
theorem length_pieces_le_of_isPlain {field : EntityField} (h : head.IsPlain field) :
    (head.pieces field).length ≤ 1 := by
  rw [pieces]
  cases hfound : head.fields.find? fun written => field.isNamed written.name with
  | none => exact Nat.zero_le 1
  | some written =>
      have hplain := h written (List.mem_of_find?_eq_some hfound)
        (by simpa using List.find?_some hfound)
      rw [Option.map_some, Option.getD_some, FoldedField.pieces, hplain]
      exact List.length_filter_le _ _

end FoldedHead

namespace Transport

namespace Reader

variable {reader : Reader} {maxLine : Nat} {events before : Events}

/-- A block of folded fields is read to its end and no further. -/
theorem Shows.read_foldedHead (head : FoldedHead (lineLimit maxLine))
    (h : reader.Shows (.ofBytes head.bytes ++ events)) :
    ∃ after, EntityFields.read maxLine reader = .ok head.entityFields after ∧
      after.Shows events := by
  rw [FoldedHead.bytes, Events.ofBytes_append, List.append_assoc] at h
  obtain ⟨middle, hlines, hmiddle⟩ := h.readFrom_lines head.isLine_of_mem_lines head.fits
    head.trimEnd_ne_nil_of_mem_lines {}
  obtain ⟨after, hblank, hafter⟩ := hmiddle.readFrom_blank
    (head.blankEnd.isLine_append List.not_mem_nil) head.blankFits
    (head.blankEnd.trimEnd_append []) _
  exact ⟨after, hlines.trans hblank, hafter⟩

end Reader

end Transport

namespace FoldedHead

variable {reader : Reader} {maxLine : Nat} {before : Events}

/-- Both readers stop behind the block, whatever follows it and however the bytes are cut.
The parser finds no fault, and both find the same pieces of the two fields.  A field
without continuations has the same value for both. -/
theorem read_alike (head : FoldedHead (lineLimit maxLine)) {rest : Bytes}
    {chunks : List Bytes} (hcapacity : 0 < reader.capacity)
    (hevents : reader.events = .ofBytes (head.bytes ++ rest) ++ before)
    (hchunks : chunks.flatten = head.bytes ++ rest) :
    ∃ fields after, EntityFields.read maxLine reader = .ok fields after ∧
      after.events = .ofBytes rest ++ before ∧
      (feedAll Parser.feed (.new false) chunks).2.isDone = true ∧
      (feedAll Parser.feed (.new false) chunks).1.flatten = rest ∧
      (feedAll Parser.feed (.new false) chunks).2.faults = [] ∧
      ∀ field : EntityField,
        SharePieces (head.pieces field) (fields.raw field)
            ((feedAll Parser.feed (.new false) chunks).2.valueOf? field.isNamed) ∧
          (head.IsPlain field → fields.raw field =
            ((feedAll Parser.feed (.new false) chunks).2.valueOf? field.isNamed).getD []) := by
  have hshows : reader.Shows (.ofBytes head.bytes ++ (.ofBytes rest ++ before)) := by
    refine ⟨hcapacity, ?_⟩
    rw [hevents, Events.ofBytes_append, List.append_assoc]
  obtain ⟨after, hread, hafter⟩ := hshows.read_foldedHead head
  have hfed := Parser.handsBack.feed_flatten (.new false) chunks
  have hblock := ofParser_feed_foldedFields head.fields head.blankEnd rest
  rw [← bytes, ← hchunks, hfed] at hblock
  generalize feedAll Parser.feed (.new false) chunks = fed at hblock ⊢
  simp only [Block.ofParser, Block.mk.injEq] at hblock
  obtain ⟨hdone, -, hheaders, hfaults, hreturned⟩ := hblock
  refine ⟨_, after, hread, hafter.events_eq, hdone, hreturned, hfaults, fun field => ?_⟩
  have hshare := head.sharePieces hheaders field
  exact ⟨hshare, fun hplain =>
    hshare.eq_of_length_le (head.length_pieces_le_of_isPlain hplain)⟩

/-- A type whose text starts on its second line and ends with a tab. -/
def foldedType : FoldedField where
  name := Utf8.ofString "CONTENT-type"
  value := [Byte.space]
  lineEnd := .crlf
  name_ne_nil := by decide
  name_clean := FieldLine.clean_of_all (by decide)
  value_clean := by decide +kernel
  continuations :=
    [{ text := Utf8.ofString " multipart/x;\t"
       lineEnd := .lf
       starts := by decide
       clean := by decide +kernel
       hasText := by decide },
      { text := Utf8.ofString "\tboundary=b"
        lineEnd := .crlf
        starts := by decide
        clean := by decide +kernel
        hasText := by decide }]

/-- A length on one line. -/
def plainLength : FoldedField where
  name := Utf8.ofString "content-length"
  value := Utf8.ofString " 12 "
  lineEnd := .lf
  name_ne_nil := by decide
  name_clean := FieldLine.clean_of_all (by decide)
  value_clean := by decide +kernel
  continuations := []

/-- A block of both, in lines of up to 20 bytes. -/
def foldedTypeHead : FoldedHead (lineLimit 20) where
  fields := [foldedType, plainLength]
  blankEnd := .crlf
  noFormFeed := by decide
  once := fun field => by cases field <;> decide
  fits := by decide
  blankFits := by decide

/-- The fold is a space for the parser and nothing for the reader of streams.  What
follows the block looks like a further end of it. -/
theorem read_alike_folded_type :
    let again : Failure := ⟨.interrupted, ""⟩
    let rest := Utf8.ofString "\n z"
    let text := foldedTypeHead.bytes ++ rest
    let chunks := [text.take 17, [], text.drop 17]
    let reader : Reader :=
      { source := [.data ((text.drop 5).take 20), .failure again, .data (text.drop 25)]
        capacity := 3
        buffer := text.take 5 }
    reader.events = Events.ofBytes text ++ [] ∧ chunks.flatten = text ∧
      foldedTypeHead.IsPlain .contentLength ∧
      ∃ fields after, EntityFields.read 20 reader = .ok fields after ∧
        after.events = Events.ofBytes rest ++ [] ∧
        (feedAll Parser.feed (.new false) chunks).2.isDone = true ∧
        (feedAll Parser.feed (.new false) chunks).1.flatten = rest ∧
        (feedAll Parser.feed (.new false) chunks).2.faults = [] ∧
        SharePieces [Utf8.ofString "multipart/x;", Utf8.ofString "boundary=b"]
          (fields.raw .contentType)
          ((feedAll Parser.feed (.new false) chunks).2.valueOf?
            EntityField.contentType.isNamed) ∧
        fields.raw .contentLength =
          ((feedAll Parser.feed (.new false) chunks).2.valueOf?
            EntityField.contentLength.isNamed).getD [] := by
  intro again rest text chunks reader
  have hevents : reader.events = Events.ofBytes text ++ [] := by decide
  have hchunks : chunks.flatten = text := by decide
  have hplain : foldedTypeHead.IsPlain .contentLength := by
    rw [IsPlain]
    decide
  obtain ⟨fields, after, hread, hafter, hdone, hreturned, hfaults, hfields⟩ :=
    read_alike foldedTypeHead (by decide) hevents hchunks
  exact ⟨hevents, hchunks, hplain, fields, after, hread, hafter, hdone, hreturned, hfaults,
    (hfields .contentType).1, (hfields .contentLength).2 hplain⟩

end FoldedHead

end StreamingHttp
