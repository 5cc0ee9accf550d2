import StreamingHttp.Entity.Block
import StreamingHttp.Proofs.Transport.LineEvents
import StreamingHttp.Proofs.Trim

/-!
# Header blocks of a stream

A header block is written as lines which hold more than white space, and a line of
carriage returns at most.  Reading it takes in these lines one by one and leaves the
stream right behind the last one.
-/

namespace StreamingHttp

open Transport

/-- A header block as it is written, with lines of up to `limit` bytes. -/
structure WrittenHead (limit : Nat) where
  /-- The lines before the end of the block. -/
  lines : List Bytes
  /-- How many carriage returns the last line has. -/
  returns : Nat
  isLine : ∀ line ∈ lines, Bytes.IsLine line
  hasText : ∀ line ∈ lines, ∃ b ∈ line, Byte.isSpace b = false
  fits : ∀ line ∈ lines, line.length ≤ limit
  returnsFit : returns + 1 ≤ limit

namespace EntityBlock

/-- Takes in lines. -/
def addLines (block : EntityBlock) (lines : List Bytes) : EntityBlock :=
  lines.foldl (fun block line => block.addLine (Bytes.trimEnd Byte.isSpace line)) block

/-- One line of a block, and what it leads to. -/
theorem readFrom_of_line_ok {maxLine : Nat} {reader after : Reader} {line : Bytes}
    (h : reader.line maxLine = .ok line after) (block : EntityBlock) :
    block.readFrom maxLine reader =
      if Bytes.trimEnd Byte.isSpace line = [] then .ok block.fields after
      else (block.addLine (Bytes.trimEnd Byte.isSpace line)).readFrom maxLine after := by
  rw [readFrom]
  split
  · next hfailed =>
      rw [h] at hfailed
      cases hfailed
  · next hread =>
      rw [h] at hread
      cases hread
      rfl

/-- A line which cannot be read, and what it leads to. -/
theorem readFrom_of_line_error {maxLine : Nat} {reader after : Reader}
    {failure : Failure} (h : reader.line maxLine = .error failure after)
    (block : EntityBlock) :
    block.readFrom maxLine reader = .error failure after := by
  rw [readFrom]
  split
  · next hfailed =>
      rw [h] at hfailed
      cases hfailed
      rfl
  · next hread =>
      rw [h] at hread
      cases hread

end EntityBlock

namespace WrittenHead

variable {limit : Nat}

/-- The line which ends a block. -/
def lastLine (head : WrittenHead limit) : Bytes :=
  List.replicate head.returns Byte.cr ++ [Byte.lf]

/-- The bytes of a block. -/
def bytes (head : WrittenHead limit) : Bytes :=
  head.lines.flatten ++ head.lastLine

/-- The fields of a block. -/
def fields (head : WrittenHead limit) : EntityFields :=
  (EntityBlock.addLines {} head.lines).fields

theorem isLine_lastLine (head : WrittenHead limit) : Bytes.IsLine head.lastLine := by
  refine ⟨List.replicate head.returns Byte.cr, ?_, rfl⟩
  intro hmem
  have := List.eq_of_mem_replicate hmem
  cases this

theorem length_lastLine_le (head : WrittenHead limit) :
    head.lastLine.length ≤ limit := by
  have := head.returnsFit
  simpa [lastLine] using this

theorem trimEnd_lastLine (head : WrittenHead limit) :
    Bytes.trimEnd Byte.isSpace head.lastLine = [] := by
  rw [Bytes.trimEnd_eq_nil_iff]
  intro b hb
  rcases List.mem_append.mp hb with hreturn | hfeed
  · rw [List.eq_of_mem_replicate hreturn]
    rfl
  · rw [List.mem_singleton.mp hfeed]
    rfl

end WrittenHead

namespace Transport

namespace Reader

variable {events : Events} {reader : Reader} {maxLine : Nat}

/-- A line of white space ends the block. -/
theorem Shows.readFrom_blank {line : Bytes}
    (h : reader.Shows (.ofBytes line ++ events)) (hline : Bytes.IsLine line)
    (hlength : line.length ≤ lineLimit maxLine)
    (hblank : Bytes.trimEnd Byte.isSpace line = []) (block : EntityBlock) :
    ∃ after, block.readFrom maxLine reader = .ok block.fields after ∧
      after.Shows events := by
  obtain ⟨after, hread, hafter⟩ := h.line_of_isLine hline hlength
  exact ⟨after, by rw [EntityBlock.readFrom_of_line_ok hread, if_pos hblank], hafter⟩

/-- Any other line is taken in. -/
theorem Shows.readFrom_line {line : Bytes}
    (h : reader.Shows (.ofBytes line ++ events)) (hline : Bytes.IsLine line)
    (hlength : line.length ≤ lineLimit maxLine)
    (htext : Bytes.trimEnd Byte.isSpace line ≠ []) (block : EntityBlock) :
    ∃ after, block.readFrom maxLine reader =
        (block.addLine (Bytes.trimEnd Byte.isSpace line)).readFrom maxLine after ∧
      after.Shows events := by
  obtain ⟨after, hread, hafter⟩ := h.line_of_isLine hline hlength
  exact ⟨after, by rw [EntityBlock.readFrom_of_line_ok hread, if_neg htext], hafter⟩

/-- All lines which hold more than white space are taken in. -/
theorem Shows.readFrom_lines {lines : List Bytes}
    (hlines : ∀ line ∈ lines, Bytes.IsLine line)
    (hlength : ∀ line ∈ lines, line.length ≤ lineLimit maxLine)
    (htext : ∀ line ∈ lines, Bytes.trimEnd Byte.isSpace line ≠ [])
    (h : reader.Shows (.ofBytes lines.flatten ++ events)) (block : EntityBlock) :
    ∃ after, block.readFrom maxLine reader =
        (block.addLines lines).readFrom maxLine after ∧
      after.Shows events := by
  induction lines generalizing reader block with
  | nil => exact ⟨reader, rfl, h⟩
  | cons line later ih =>
      rw [List.flatten_cons, Events.ofBytes_append, List.append_assoc] at h
      obtain ⟨hisLine, hlines⟩ := List.forall_mem_cons.mp hlines
      obtain ⟨hfits, hlength⟩ := List.forall_mem_cons.mp hlength
      obtain ⟨hsome, htext⟩ := List.forall_mem_cons.mp htext
      obtain ⟨middle, hfirst, hmiddle⟩ := h.readFrom_line hisLine hfits hsome block
      obtain ⟨after, hlater, hafter⟩ := ih hlines hlength htext hmiddle
        (block.addLine (Bytes.trimEnd Byte.isSpace line))
      exact ⟨after, hfirst.trans hlater, hafter⟩

/-- A header block is read to its end and no further. -/
theorem Shows.read_head (head : WrittenHead (lineLimit maxLine))
    (h : reader.Shows (.ofBytes head.bytes ++ events)) :
    ∃ after, EntityFields.read maxLine reader = .ok head.fields after ∧
      after.Shows events := by
  have htext : ∀ line ∈ head.lines, Bytes.trimEnd Byte.isSpace line ≠ [] :=
    fun line hline => Bytes.trimEnd_ne_nil_iff.mpr (head.hasText line hline)
  rw [WrittenHead.bytes, Events.ofBytes_append, List.append_assoc] at h
  obtain ⟨middle, hlines, hmiddle⟩ := h.readFrom_lines head.isLine head.fits htext {}
  obtain ⟨after, hlast, hafter⟩ := hmiddle.readFrom_blank head.isLine_lastLine
    head.length_lastLine_le head.trimEnd_lastLine _
  exact ⟨after, hlines.trans hlast, hafter⟩

end Reader

end Transport

end StreamingHttp
