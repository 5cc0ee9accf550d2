import StreamingHttp.Proofs.Entity.HeadReading

/-!
# Header blocks of any text

A header block which is read from a stream ends with its first line of nothing but white
space.  `EntityBlock.ofLines?` reads the fields off the lines of a text, with all of them
at hand; what follows the end of the block is left.  A text without such a line has no
block, and reading it fails like the stream does.

Lines count as a whole only if the limit allows them.  `EntityBlock.Fits` says so of the
lines up to the end of the block, and of none after it.
-/

namespace StreamingHttp

open Transport

namespace EntityBlock

/-- Whether a line ends a block: it holds nothing but white space. -/
def isEnd (line : Bytes) : Bool :=
  line.all Byte.isSpace

/-- The lines before the end of a block. -/
def body (lines : List Bytes) : List Bytes :=
  lines.takeWhile fun line => !isEnd line

/-- The line which ends a block and the lines behind it.  None if no line does. -/
def ending (lines : List Bytes) : List Bytes :=
  lines.dropWhile fun line => !isEnd line

/-- The fields of a block, and the bytes which follow it.  The tail is what follows the
last line. -/
def ofLines? (lines : List Bytes) (tail : Bytes) : Option (EntityFields × Bytes) :=
  match ending lines with
  | [] => none
  | _ :: later => some ((addLines {} (body lines)).fields, later.flatten ++ tail)

/-- How reading a block ends, in a stream which stops behind the tail: with `failure` and
`after` behind the stop, or with the fields and what is left of the stream. -/
def outcome (failure : Failure) (before after : Events) (lines : List Bytes)
    (tail : Bytes) : EStateM.Result Failure Events EntityFields :=
  match ofLines? lines tail with
  | none => .error failure after
  | some (fields, rest) => .ok fields (.ofBytes rest ++ before)

/-- No line of a block is longer than the limit.  If the block does not end, the tail is
its last line, cut short. -/
structure Fits (limit : Nat) (lines : List Bytes) (tail : Bytes) : Prop where
  body : ∀ line ∈ body lines, line.length ≤ limit
  blank : ∀ line ∈ (ending lines).head?, line.length ≤ limit
  tail : ending lines = [] → tail.length < limit

/-- Lines which are all no longer than the limit, and a shorter tail. -/
theorem Fits.of_forall {limit : Nat} {lines : List Bytes} {tail : Bytes}
    (hlines : ∀ line ∈ lines, line.length ≤ limit) (htail : tail.length < limit) :
    Fits limit lines tail where
  body line hline := hlines line ((List.takeWhile_sublist _).mem hline)
  blank line hline := hlines line ((List.dropWhile_sublist _).mem (List.mem_of_mem_head? hline))
  tail _ := htail

theorem body_append_ending (lines : List Bytes) : body lines ++ ending lines = lines :=
  List.takeWhile_append_dropWhile

theorem isEnd_iff {line : Bytes} :
    isEnd line = true ↔ Bytes.trimEnd Byte.isSpace line = [] := by
  rw [isEnd, List.all_eq_true, Bytes.trimEnd_eq_nil_iff]

theorem trimEnd_ne_nil_of_mem_body {lines : List Bytes} :
    ∀ line ∈ body lines, Bytes.trimEnd Byte.isSpace line ≠ [] := by
  intro line hline hempty
  have hnot := List.mem_takeWhile_imp hline
  rw [isEnd_iff.mpr hempty] at hnot
  cases hnot

/-- The first line which is not before the end of a block ends it. -/
theorem isEnd_of_ending_eq_cons {lines later : List Bytes} {blank : Bytes}
    (h : ending lines = blank :: later) : isEnd blank = true := by
  have hhead := List.head?_dropWhile_not (fun line => !isEnd line) lines
  rw [← ending, h] at hhead
  simpa using hhead

end EntityBlock

namespace Transport

namespace Reader

variable {reader : Reader} {maxLine : Nat} {before after : Events} {failure : Failure}
  {lines : List Bytes} {tail : Bytes}

/-- A block is read off its lines and left behind.  Without an end it fails. -/
theorem Shows.agrees_read (hlines : ∀ line ∈ lines, Bytes.IsLine line)
    (htail : Byte.lf ∉ tail) (hfits : EntityBlock.Fits (lineLimit maxLine) lines tail)
    (hstop : Events.StopsWith failure before after)
    (h : reader.Shows (.ofBytes (lines.flatten ++ tail) ++ before)) :
    Agrees (EntityFields.read maxLine reader)
      (EntityBlock.outcome failure before after lines tail) := by
  have hsplit := EntityBlock.body_append_ending lines
  have hbody : ∀ line ∈ EntityBlock.body lines, Bytes.IsLine line := fun line hline =>
    hlines line ((List.takeWhile_sublist _).mem hline)
  rw [EntityFields.read, EntityBlock.outcome, EntityBlock.ofLines?]
  cases hending : EntityBlock.ending lines with
  | nil =>
      rw [hending, List.append_nil] at hsplit
      rw [← hsplit, Events.ofBytes_append, List.append_assoc] at h
      obtain ⟨middle, hread, hmiddle⟩ := h.readFrom_lines hbody hfits.body
        EntityBlock.trimEnd_ne_nil_of_mem_body {}
      obtain ⟨last, hline, hlast⟩ :=
        hmiddle.line_of_stopsWith htail (hfits.tail hending) hstop
      rw [hread, EntityBlock.readFrom_of_line_error hline]
      exact .error hlast
  | cons blank later =>
      have hblank : blank ∈ lines := by
        rw [← hsplit, hending]
        simp
      have hlength : blank.length ≤ lineLimit maxLine :=
        hfits.blank blank (by rw [hending]; rfl)
      have hlayout : lines.flatten ++ tail =
          (EntityBlock.body lines).flatten ++ (blank ++ (later.flatten ++ tail)) := by
        conv_lhs => rw [← hsplit, hending]
        simp
      rw [hlayout, Events.ofBytes_append, List.append_assoc, Events.ofBytes_append blank,
        List.append_assoc] at h
      obtain ⟨middle, hread, hmiddle⟩ := h.readFrom_lines hbody hfits.body
        EntityBlock.trimEnd_ne_nil_of_mem_body {}
      obtain ⟨last, hend, hlast⟩ := hmiddle.readFrom_blank (hlines blank hblank) hlength
        (EntityBlock.isEnd_iff.mp (EntityBlock.isEnd_of_ending_eq_cons hending))
        (EntityBlock.addLines {} (EntityBlock.body lines))
      rw [hread, hend]
      exact .ok hlast

end Reader

end Transport

end StreamingHttp
