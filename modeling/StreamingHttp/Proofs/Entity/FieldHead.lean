import StreamingHttp.Proofs.Entity.LineByLine
import StreamingHttp.Proofs.Header.FoldedFields

/-!
# Two readers of a block of fields

A block is written field by field.  The reader of streams keeps two of its fields and
joins the values of lines which repeat one; the header parser keeps all fields, and the
first one of a name counts.  One trims white space and the other blanks.

If no value holds a form feed, and neither of the two fields is repeated, both readers
find the same values.
-/

namespace StreamingHttp

open Header

/-! ### Trimming a line -/

/-- A line end is white space. -/
theorem LineEnd.trimEnd_append (lineEnd : LineEnd) (text : Bytes) :
    Bytes.trimEnd Byte.isSpace (text ++ lineEnd.bytes) = Bytes.trimEnd Byte.isSpace text := by
  refine Bytes.trimEnd_append_of_forall (fun b hb => ?_) text
  simp [Byte.isSpace, lineEnd.isLineEnd b hb]

/-- Without line ends and form feeds, white space is blanks. -/
theorem Byte.isSpace_eq_isBlank {b : UInt8} (hclean : Byte.isLineEnd b = false)
    (hff : b ≠ Byte.ff) : Byte.isSpace b = Byte.isBlank b := by
  simp [Byte.isSpace, hclean, hff]

theorem Bytes.trim_isSpace_eq {text : Bytes}
    (hclean : ∀ b ∈ text, Byte.isLineEnd b = false) (hff : Byte.ff ∉ text) :
    Bytes.trim Byte.isSpace text = Bytes.trim Byte.isBlank text :=
  Bytes.trim_congr fun b hb =>
    Byte.isSpace_eq_isBlank (hclean b hb) fun heq => hff (heq ▸ hb)

/-! ### One field -/

namespace Header

namespace FieldLine

variable (line : FieldLine)

theorem trimEnd_name : Bytes.trimEnd Byte.isSpace line.name = line.name :=
  Bytes.trimEnd_eq_self fun last hlast =>
    (line.name_clean last (List.mem_of_getLast? hlast)).1

theorem hasText_bytes : ∃ b ∈ line.bytes, Byte.isSpace b = false :=
  ⟨Byte.colon, by simp [bytes, text], rfl⟩

/-- A line does not start with white space. -/
theorem continues_bytes : EntityBlock.continues line.bytes = false := by
  obtain ⟨b, rest, hname⟩ := List.exists_cons_of_ne_nil line.name_ne_nil
  rw [bytes, text, hname]
  exact (line.name_clean b (hname ▸ List.mem_cons_self)).1

theorem lineName_bytes : EntityBlock.lineName line.bytes = line.name := by
  have hcolon : Byte.colon ∉ line.name := fun hmem => (line.name_clean _ hmem).2 rfl
  rw [EntityBlock.lineName, bytes, text, List.append_assoc, List.cons_append,
    Delimited.upTo_append_cons hcolon, trimEnd_name]

/-- The value of a line is the value of its field. -/
theorem lineValue_bytes (h : Byte.ff ∉ line.value) :
    EntityBlock.lineValue line.bytes = line.header.2 := by
  have hcolon : Byte.colon ∉ line.name := fun hmem => (line.name_clean _ hmem).2 rfl
  have hvalue : Bytes.trim Byte.isSpace line.value = line.header.2 :=
    Bytes.trim_isSpace_eq line.value_clean h
  rw [EntityBlock.lineValue, bytes, text, List.append_assoc, List.cons_append,
    Delimited.behind_append_cons hcolon, Bytes.trim, line.lineEnd.trimEnd_append]
  exact hvalue

theorem names_bytes (field : EntityField) :
    EntityBlock.names field line.bytes = field.isNamed line.name := by
  rw [EntityBlock.names_eq_isNamed line.continues_bytes, lineName_bytes]

end FieldLine

end Header

/-! ### All fields -/

/-- The values of a field are the values of the lines which name it. -/
theorem EntityBlock.valuesOf_map_bytes {lines : List FieldLine}
    (h : ∀ line ∈ lines, Byte.ff ∉ line.value) (field : EntityField) :
    valuesOf field (lines.map FieldLine.bytes) =
      (lines.filter fun line => field.isNamed line.name).map fun line => line.header.2 := by
  have hplain : ∀ text ∈ lines.map FieldLine.bytes, continues text = false := by
    intro text htext
    obtain ⟨line, -, rfl⟩ := List.mem_map.mp htext
    exact line.continues_bytes
  have hnames : names field ∘ FieldLine.bytes = fun line => field.isNamed line.name :=
    funext fun line => line.names_bytes field
  rw [valuesOf_of_not_continues hplain, List.filter_map, hnames, List.map_map]
  exact List.map_congr_left fun line hline =>
    line.lineValue_bytes (h line (List.mem_of_mem_filter hline))

/-- A block of fields as it is written, with lines of up to `limit` bytes. -/
structure FieldHead (limit : Nat) where
  lines : List FieldLine
  blankEnd : LineEnd
  noFormFeed : ∀ line ∈ lines, Byte.ff ∉ line.value
  once : ∀ field : EntityField,
    (lines.filter fun line => field.isNamed line.name).length ≤ 1
  fits : ∀ line ∈ lines, line.bytes.length ≤ limit
  blankFits : blankEnd.bytes.length ≤ limit

namespace FieldHead

variable {limit : Nat} (head : FieldHead limit)

/-- The bytes of a block. -/
def bytes (head : FieldHead limit) : Bytes :=
  (head.lines.map FieldLine.bytes).flatten ++ head.blankEnd.bytes

/-- The value of a field, without the blanks around it. -/
def value? (head : FieldHead limit) (field : EntityField) : Option Bytes :=
  (head.lines.find? fun line => field.isNamed line.name).map fun line => line.header.2

theorem hasText_of_mem_lines :
    ∀ text ∈ head.lines.map FieldLine.bytes, ∃ b ∈ text, Byte.isSpace b = false := by
  intro text htext
  obtain ⟨line, -, rfl⟩ := List.mem_map.mp htext
  exact line.hasText_bytes

theorem length_le_of_mem_lines :
    ∀ text ∈ head.lines.map FieldLine.bytes, text.length ≤ limit := by
  intro text htext
  obtain ⟨line, hline, rfl⟩ := List.mem_map.mp htext
  exact head.fits line hline

/-- The empty line fits, and one byte of it is the line feed. -/
theorem returns_lt : head.blankEnd.bytes.length - 1 < limit := by
  have hfits := head.blankFits
  have hpos := List.length_pos_iff.mpr head.blankEnd.ne_nil
  omega

/-- The same block as lines. -/
def toHead (head : FieldHead limit) : WrittenHead limit where
  lines := head.lines.map FieldLine.bytes
  returns := head.blankEnd.bytes.length - 1
  isLine text htext := (isLine_of_mem_map_bytes head.lines text htext).1
  hasText := head.hasText_of_mem_lines
  fits := head.length_le_of_mem_lines
  returnsFit := head.returns_lt

theorem bytes_toHead : head.toHead.bytes = head.bytes := by
  have hlast : head.toHead.lastLine = head.blankEnd.bytes := by
    show List.replicate (head.blankEnd.bytes.length - 1) Byte.cr ++ [Byte.lf] = _
    cases head.blankEnd <;> rfl
  rw [WrittenHead.bytes, hlast]
  rfl

/-- The reader of streams finds the value of a field. -/
theorem raw_fields_toHead (field : EntityField) :
    head.toHead.fields.raw field = (head.value? field).getD [] := by
  have hfields : head.toHead.fields =
      EntityBlock.fieldsOf (head.lines.map FieldLine.bytes) :=
    EntityBlock.fields_addLines fun text htext =>
      Bytes.trimEnd_ne_nil_iff.mpr (head.hasText_of_mem_lines text htext)
  have honce := head.once field
  rw [hfields, EntityBlock.raw_fieldsOf, EntityBlock.valuesOf_map_bytes head.noFormFeed,
    value?, ← List.head?_filter]
  -- Of one line at most, the first value and all values joined are the same.
  generalize (head.lines.filter fun line => field.isNamed line.name) = named at honce ⊢
  match named, honce with
  | [], _ => rfl
  | [line], _ => simp

/-- So does the header parser. -/
theorem valueOf?_eq {parser : Parser}
    (h : parser.headers = head.lines.map FieldLine.header) (field : EntityField) :
    parser.valueOf? field.isNamed = head.value? field := by
  rw [Parser.valueOf?, h, List.find?_map, Option.map_map]
  rfl

end FieldHead

end StreamingHttp
