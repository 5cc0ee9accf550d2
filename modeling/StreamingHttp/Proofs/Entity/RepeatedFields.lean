import StreamingHttp.Proofs.Decimal
import StreamingHttp.Proofs.Entity.LineByLine

/-!
# Fields which a header block repeats

What a line says of a field is appended to what has been read of it, whether the line
continues the field or names it again.  So in a block without continuations a field which
is repeated has the values of all its lines, joined.  The header parser takes the first line
of a name, and the two readers differ as soon as a later line adds something.

`EntityBlock.KeepsFirst` says that the first line of each name counts and no other.
`EntityBlock.read_keepsFirst_iff` tells when this holds of what is read: no later line adds
to the media type, and what later lines add to the length leaves the length as it is.  Two
lines which state a length of one digit each break it: a length of two digits is read,
which no line states.
-/

namespace StreamingHttp

open Transport

/-- What may stand behind the value of a length field without a change to the length:
nothing; anything, if there is a value and it is no length; no length, if there is no value;
and zeros behind zeros. -/
def LeavesLength (first later : Bytes) : Prop :=
  later = [] ∨
    contentLength? first = none ∧ (first ≠ [] ∨ contentLength? later = none) ∨
    contentLength? first = some 0 ∧ contentLength? later = some 0

theorem contentLength?_append_eq_iff {first later : Bytes}
    (hfirst : Bytes.trim Byte.isSpace first = first)
    (hlater : Bytes.trim Byte.isSpace later = later) :
    contentLength? (first ++ later) = contentLength? first ↔ LeavesLength first later := by
  have hbound : 0 < lengthBound := by decide
  rw [LeavesLength, contentLength?, contentLength?, contentLength?,
    Bytes.trim_append hfirst hlater, hfirst, hlater]
  exact Decimal.read?_append_eq_iff hbound

namespace EntityBlock

variable {lines : List Bytes} {field : EntityField}

/-- The value on the first line which names a field; empty if no line does. -/
def firstValue (field : EntityField) (lines : List Bytes) : Bytes :=
  ((lines.find? (names field)).map lineValue).getD []

/-- The values on the lines which name a field again, joined. -/
def repeatedValues (field : EntityField) (lines : List Bytes) : Bytes :=
  (lines.filter (names field)).tail.flatMap lineValue

/-- The first line of each name counts, and no other. -/
structure KeepsFirst (lines : List Bytes) (fields : EntityFields) : Prop where
  contentType : fields.contentType = firstValue .contentType lines
  length : fields.length? = contentLength? (firstValue .contentLength lines)

/-! ### Blocks without continuations -/

/-- A field has the value on its first line, and behind it the values on the others. -/
theorem raw_fieldsOf_of_not_continues (h : ∀ line ∈ lines, continues line = false)
    (field : EntityField) :
    (fieldsOf lines).raw field = firstValue field lines ++ repeatedValues field lines := by
  rw [raw_fieldsOf, valuesOf_of_not_continues h, firstValue, repeatedValues,
    ← List.head?_filter]
  cases lines.filter (names field) <;> rfl

theorem trim_firstValue (field : EntityField) (lines : List Bytes) :
    Bytes.trim Byte.isSpace (firstValue field lines) = firstValue field lines := by
  rw [firstValue]
  cases lines.find? (names field) with
  | none => rfl
  | some line => exact Bytes.trim_trim _

theorem trim_repeatedValues (field : EntityField) (lines : List Bytes) :
    Bytes.trim Byte.isSpace (repeatedValues field lines) = repeatedValues field lines := by
  rw [repeatedValues]
  induction (lines.filter (names field)).tail with
  | nil => rfl
  | cons line later ih => exact Bytes.trim_append (Bytes.trim_trim _) ih

theorem keepsFirst_fieldsOf_iff (h : ∀ line ∈ lines, continues line = false) :
    KeepsFirst lines (fieldsOf lines) ↔
      repeatedValues .contentType lines = [] ∧
        LeavesLength (firstValue .contentLength lines)
          (repeatedValues .contentLength lines) := by
  have htype : (fieldsOf lines).contentType = _ :=
    raw_fieldsOf_of_not_continues h .contentType
  have hlength : (fieldsOf lines).length? = contentLength? _ :=
    congrArg contentLength? (raw_fieldsOf_of_not_continues h .contentLength)
  rw [← contentLength?_append_eq_iff (trim_firstValue _ lines) (trim_repeatedValues _ lines),
    ← hlength]
  constructor
  · rintro ⟨hsame, hkept⟩
    rw [htype] at hsame
    exact ⟨List.append_right_eq_self.mp hsame, hkept⟩
  · rintro ⟨hnone, hkept⟩
    rw [hnone, List.append_nil] at htype
    exact ⟨htype, hkept⟩

/-! ### Streams -/

variable {reader last : Reader} {maxLine : Nat} {text : Bytes} {stop after : Events}
  {failure : Failure} {fields : EntityFields}

/-- The fields which are read are those of the lines before the end of the block. -/
theorem eq_fieldsOf_of_read_eq_ok {tail : Bytes}
    (h : Agrees (EntityFields.read maxLine reader) (outcome failure stop after lines tail))
    (hread : EntityFields.read maxLine reader = .ok fields last) :
    fields = fieldsOf (body lines) := by
  rw [hread] at h
  cases hending : ending lines with
  | nil =>
      rw [outcome_of_ending_eq_nil hending] at h
      cases h
  | cons blank later =>
      rw [outcome_of_ending_eq_cons hending] at h
      cases h
      rfl

/-- A block without continuations whose lines are no longer than the limit.  A field which
is read has the values of all its lines, the first one in front.  So the first line alone
counts iff no later line adds to the media type, and what the later ones add to the length
leaves the length as it is. -/
theorem read_keepsFirst_iff (hcapacity : 0 < reader.capacity)
    (hevents : reader.events = .ofBytes text ++ stop)
    (hstop : Events.StopsWith failure stop after)
    (hfits : Fits (lineLimit maxLine) (Bytes.lines text) (Bytes.unterminated text))
    (hplain : ∀ line ∈ body (Bytes.lines text), continues line = false)
    (hread : EntityFields.read maxLine reader = .ok fields last) :
    (∀ field, fields.raw field =
      firstValue field (body (Bytes.lines text)) ++
        repeatedValues field (body (Bytes.lines text))) ∧
    (KeepsFirst (body (Bytes.lines text)) fields ↔
      repeatedValues .contentType (body (Bytes.lines text)) = [] ∧
        LeavesLength (firstValue .contentLength (body (Bytes.lines text)))
          (repeatedValues .contentLength (body (Bytes.lines text)))) := by
  have hagrees := agrees_read_lines hcapacity hevents hstop hfits
  obtain rfl := eq_fieldsOf_of_read_eq_ok hagrees hread
  exact ⟨raw_fieldsOf_of_not_continues hplain, keepsFirst_fieldsOf_iff hplain⟩

/-- A media type which a line without a value names again, and zeros behind a length of
zero, with another field between them. -/
theorem read_keepsFirst_of_zeros :
    let text := ["Content-Type: a/b\r\n", "content-length: 0\r\n", "X: 7\r\n", "CONTENT-TYPE:\r\n",
      "Content-Length :00\n", "\n", "7"].flatMap Utf8.ofString
    let stop : Events := []
    let reader : Reader := { source := [.data text], capacity := 5 }
    let fields : EntityFields := ⟨Utf8.ofString "a/b", Utf8.ofString "000"⟩
    0 < reader.capacity ∧ reader.events = .ofBytes text ++ stop ∧
      Events.StopsWith .connectionClosed stop [] ∧
      Fits (lineLimit 20) (Bytes.lines text) (Bytes.unterminated text) ∧
      (∀ line ∈ body (Bytes.lines text), continues line = false) ∧
      ∃ last, EntityFields.read 20 reader = .ok fields last ∧
        KeepsFirst (body (Bytes.lines text)) fields := by
  intro text stop reader fields
  have hcapacity : 0 < reader.capacity := by decide
  have hevents : reader.events = .ofBytes text ++ stop := rfl
  have hstop : Events.StopsWith .connectionClosed stop [] := .ended .exhausted
  have hfits : Fits (lineLimit 20) (Bytes.lines text) (Bytes.unterminated text) :=
    .of_forall (by decide +kernel) (by decide +kernel)
  have hplain : ∀ line ∈ body (Bytes.lines text), continues line = false := by decide +kernel
  have hending : ending (Bytes.lines text) = [[Byte.lf]] := by decide +kernel
  have hfields : fieldsOf (body (Bytes.lines text)) = fields := by decide +kernel
  have hagrees := agrees_read_lines hcapacity hevents hstop hfits
  rw [outcome_of_ending_eq_cons hending, hfields] at hagrees
  obtain ⟨last, hread, -⟩ := hagrees.exists_ok
  obtain ⟨-, hkeeps⟩ := read_keepsFirst_iff hcapacity hevents hstop hfits hplain hread
  have hlength : LeavesLength (firstValue .contentLength (body (Bytes.lines text)))
      (repeatedValues .contentLength (body (Bytes.lines text))) :=
    .inr (.inr ⟨by decide +kernel, by decide +kernel⟩)
  exact ⟨hcapacity, hevents, hstop, hfits, hplain, last, hread,
    hkeeps.mpr ⟨by decide +kernel, hlength⟩⟩

/-- Both fields twice.  The media type which is read is on no line, and neither is the
length. -/
theorem not_keepsFirst_of_repeated_fields :
    let text := ["Content-Type: text/plain\r\n", "Content-Length: 1\r\n",
      "Content-Type: text/html\r\n", "Content-Length: 2\r\n", "\r\n"].flatMap Utf8.ofString
    let reader : Reader := { source := [.data text] }
    let fields : EntityFields := ⟨Utf8.ofString "text/plaintext/html", Utf8.ofString "12"⟩
    (∀ line ∈ Bytes.lines text, line.length ≤ lineLimit 1024) ∧
      Bytes.unterminated text = [] ∧
      (∀ line ∈ body (Bytes.lines text), continues line = false) ∧
      (∃ last, EntityFields.read 1024 reader = .ok fields last ∧ last.events = []) ∧
      fields.length? = some 12 ∧
      (∀ line ∈ Bytes.lines text, contentLength? (lineValue line) ≠ some 12) ∧
      contentLength? (firstValue .contentLength (body (Bytes.lines text))) = some 1 ∧
      ¬ KeepsFirst (body (Bytes.lines text)) fields := by
  intro text reader fields
  have hcapacity : 0 < reader.capacity := by decide
  have hevents : reader.events = Events.ofBytes text ++ [] := rfl
  have hlines : ∀ line ∈ Bytes.lines text, line.length ≤ lineLimit 1024 := by decide +kernel
  have htail : Bytes.unterminated text = [] := by decide +kernel
  have hfits : Fits (lineLimit 1024) (Bytes.lines text) (Bytes.unterminated text) :=
    .of_forall hlines (by simp [htail, lineLimit])
  have hending : ending (Bytes.lines text) = [[Byte.cr, Byte.lf]] := by decide +kernel
  have hfields : fieldsOf (body (Bytes.lines text)) = fields := by decide +kernel
  have hagrees := agrees_read_lines hcapacity hevents (.ended .exhausted) hfits
  rw [outcome_of_ending_eq_cons hending, hfields] at hagrees
  obtain ⟨last, hread, hlast⟩ := hagrees.exists_ok
  have hstated : fields.length? = some 12 := by decide +kernel
  have hfirst : contentLength? (firstValue .contentLength (body (Bytes.lines text))) = some 1 := by
    decide +kernel
  refine ⟨hlines, htail, by decide +kernel, ⟨last, hread, hlast.events_eq⟩, hstated,
    by decide +kernel, hfirst, fun hkeeps => ?_⟩
  have hsame := hkeeps.length
  rw [hstated, hfirst] at hsame
  cases hsame

end EntityBlock

end StreamingHttp
