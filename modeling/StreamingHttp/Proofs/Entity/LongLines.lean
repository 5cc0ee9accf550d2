import StreamingHttp.Proofs.Entity.BlockReading
import StreamingHttp.Proofs.Transport.LinePieces

/-!
# Header blocks with long lines

A block ends with the first piece of nothing but white space.  If no line is longer than
the limit, the pieces are the lines, and the block ends with a blank one.  A longer line is
read in several pieces, and a later one of them may hold white space only: the end of the
line, or a run of spaces in the middle of it.  Then the block ends there, and what follows
of its header is left in the stream.

`EntityBlock.Between` is what holds between two pieces: whole lines have been read, and
perhaps full pieces of a line which is still open.  The pieces of an open line were not all
white space, so the line is not a blank one, however it goes on.  Hence the line in which
the block ends tells which of the two it was: it is blank iff it is no longer than the
limit.
-/

namespace StreamingHttp

open Transport

namespace EntityBlock

/-- A text ends with a blank line: one which is whole and holds nothing but white space. -/
structure EndsAtBlankLine (text : Bytes) : Prop where
  terminated : text.getLast? = some Byte.lf
  blank : isEnd (Bytes.lastLine text) = true

/-- Between two pieces: whole lines, and the full pieces of the line which is open, if
there is one. -/
structure Between (limit : Nat) (whole opened : Bytes) : Prop where
  terminated : ∀ b ∈ whole.getLast?, b = Byte.lf
  inside : Byte.lf ∉ opened
  full : opened = [] ∨ isEnd opened = false ∧ limit ≤ opened.length

/-- How the line ends in which a block has been found to end. -/
structure EndsWithin (limit : Nat) (text : Bytes) : Prop where
  isEnd_iff : isEnd (Bytes.lastLine text) = true ↔ (Bytes.lastLine text).length ≤ limit
  terminated : (Bytes.lastLine text).length < limit → text.getLast? = some Byte.lf

variable {limit : Nat} {whole opened piece text : Bytes}

theorem isEnd_append (first second : Bytes) :
    isEnd (first ++ second) = (isEnd first && isEnd second) :=
  List.all_append

theorem between_nil (limit : Nat) : Between limit [] [] :=
  ⟨by simp, List.not_mem_nil, .inl rfl⟩

/-- A piece which does not end the block either ends its line or leaves it open. -/
theorem Between.append (h : Between limit whole opened) (hpiece : Bytes.IsLinePiece limit piece)
    (hend : isEnd piece = false) :
    ∃ whole' opened', whole' ++ opened' = whole ++ opened ++ piece ∧
      Between limit whole' opened' := by
  by_cases hlast : piece.getLast? = some Byte.lf
  · refine ⟨whole ++ opened ++ piece, [], List.append_nil _, ?_, List.not_mem_nil, .inl rfl⟩
    intro b hb
    rw [List.getLast?_append_of_ne_nil _ hpiece.ne_nil, hlast] at hb
    exact (Option.mem_some_iff.mp hb).symm
  · have hlength : piece.length = limit := hpiece.full.resolve_right hlast
    have hfeed : Byte.lf ∉ piece := by
      rw [List.getLast?_eq_some_getLast hpiece.ne_nil, Option.some_inj] at hlast
      rw [← List.dropLast_append_getLast hpiece.ne_nil, List.mem_append, List.mem_singleton]
      exact not_or.mpr ⟨hpiece.inside, Ne.symm hlast⟩
    refine ⟨whole, opened ++ piece, (List.append_assoc _ _ _).symm, h.terminated, ?_, .inr ?_⟩
    · exact fun hmem => (List.mem_append.mp hmem).elim h.inside hfeed
    · rw [isEnd_append, hend, Bool.and_false, List.length_append]
      exact ⟨rfl, by omega⟩

/-- A piece which ends the block ends a blank line, unless its line is longer than the
limit. -/
theorem Between.endsWithin (h : Between limit whole opened)
    (hpiece : Bytes.IsLinePiece limit piece) (hend : isEnd piece = true) :
    EndsWithin limit (whole ++ opened ++ piece) := by
  have hline : Bytes.lastLine (whole ++ opened ++ piece) = opened ++ piece := by
    rw [List.append_assoc]
    refine Bytes.lastLine_append h.terminated (by simp [hpiece.ne_nil]) ?_
    rw [List.dropLast_append_of_ne_nil hpiece.ne_nil]
    exact fun hmem => (List.mem_append.mp hmem).elim h.inside hpiece.inside
  have hpositive : 0 < piece.length := List.length_pos_iff.mpr hpiece.ne_nil
  constructor
  · rw [hline, isEnd_append, hend, Bool.and_true, List.length_append]
    rcases h.full with hnone | ⟨hopened, hlong⟩
    · subst hnone
      simpa [isEnd] using hpiece.length_le
    · rw [hopened]
      exact iff_of_false Bool.false_ne_true (by omega)
  · intro hlt
    rw [hline, List.length_append] at hlt
    rw [List.getLast?_append_of_ne_nil _ hpiece.ne_nil]
    exact hpiece.full.resolve_left (by omega)

/-- A block ends at a blank line iff this line is whole and no longer than the limit. -/
theorem EndsWithin.endsAtBlankLine_iff (h : EndsWithin limit text) :
    EndsAtBlankLine text ↔
      text.getLast? = some Byte.lf ∧ (Bytes.lastLine text).length ≤ limit :=
  ⟨fun hends => ⟨hends.terminated, h.isEnd_iff.mp hends.blank⟩,
    fun ⟨hlast, hlength⟩ => ⟨hlast, h.isEnd_iff.mpr hlength⟩⟩

end EntityBlock

namespace Transport

namespace Reader

variable {events : Events} {reader after : Reader} {maxLine : Nat} {fields : EntityFields}

/-- What reading the rest of a block takes, and how this ends. -/
theorem Shows.exists_of_readFrom_eq_ok (block : EntityBlock) {whole opened : Bytes}
    (hbetween : EntityBlock.Between (lineLimit maxLine) whole opened)
    (h : reader.Shows events) (hread : block.readFrom maxLine reader = .ok fields after) :
    ∃ more rest, events = .ofBytes more ++ rest ∧ after.Shows rest ∧
      EntityBlock.EndsWithin (lineLimit maxLine) (whole ++ opened ++ more) := by
  fun_induction EntityBlock.readFrom maxLine block reader generalizing whole opened events with
  | case1 block reader failure failed hline => cases hread
  | case2 block reader piece middle hline hblank =>
      cases hread
      obtain ⟨hpiece, rest, hevents, hmiddle⟩ := h.exists_of_line_eq_ok hline
      exact ⟨piece, rest, hevents, hmiddle,
        hbetween.endsWithin hpiece (EntityBlock.isEnd_iff.mpr hblank)⟩
  | case3 block reader piece middle hline hblank ih =>
      obtain ⟨hpiece, rest, hevents, hmiddle⟩ := h.exists_of_line_eq_ok hline
      have hend : EntityBlock.isEnd piece = false := by
        rw [← Bool.not_eq_true, EntityBlock.isEnd_iff]
        exact hblank
      obtain ⟨whole', opened', hsame, hnext⟩ := hbetween.append hpiece hend
      obtain ⟨more, last, hrest, hafter, hends⟩ := ih hnext hmiddle hread
      refine ⟨piece ++ more, last, ?_, hafter, ?_⟩
      · rw [hevents, hrest, Events.ofBytes_append, List.append_assoc]
      · rwa [← List.append_assoc, ← hsame]

end Reader

end Transport

namespace EntityBlock

variable {reader after : Reader} {maxLine : Nat} {fields : EntityFields}

/-- What reading a block takes ends with a blank line iff its last line is whole and no
longer than the limit.  A shorter line than the limit is always a blank one. -/
theorem read_endsAtBlankLine_iff (hcapacity : 0 < reader.capacity)
    (h : EntityFields.read maxLine reader = .ok fields after) :
    ∃ text, reader.events = .ofBytes text ++ after.events ∧
      (EndsAtBlankLine text ↔
        text.getLast? = some Byte.lf ∧
          (Bytes.lastLine text).length ≤ lineLimit maxLine) ∧
      ((Bytes.lastLine text).length < lineLimit maxLine → EndsAtBlankLine text) := by
  have hshows : reader.Shows reader.events := ⟨hcapacity, rfl⟩
  obtain ⟨text, rest, hevents, hafter, hends⟩ :=
    hshows.exists_of_readFrom_eq_ok {} (between_nil _) h
  refine ⟨text, by rw [hevents, hafter.events_eq], hends.endsAtBlankLine_iff, ?_⟩
  exact fun hlt => hends.endsAtBlankLine_iff.mpr ⟨hends.terminated hlt, Nat.le_of_lt hlt⟩

/-- The fields of a block and what is left behind it, if it can be read. -/
def read? (maxLine : Nat) (reader : Reader) : Option (EntityFields × Reader) :=
  match EntityFields.read maxLine reader with
  | .ok fields after => some (fields, after)
  | .error _ _ => none

theorem read_of_read?_eq_some (h : read? maxLine reader = some (fields, after)) :
    EntityFields.read maxLine reader = .ok fields after := by
  rw [read?] at h
  split at h
  · next hread =>
      cases h
      exact hread
  · cases h

/-- A line of two pieces, neither of which is all white space, and a blank line behind
it. -/
theorem read_endsAtBlankLine_behind_pieces :
    let text := Utf8.ofString "Content-Length: 12\r\n\r\n"
    let reader : Reader := { source := [.data (text ++ Utf8.ofString "body")], capacity := 5 }
    let after : Reader :=
      { source := [.data (Utf8.ofString "y")]
        capacity := 5
        buffer := Utf8.ofString "bod" }
    0 < reader.capacity ∧
      EntityFields.read 15 reader = .ok { contentLength := Utf8.ofString "12" } after ∧
      reader.events = .ofBytes text ++ after.events ∧
      EndsAtBlankLine text := by
  intro text reader after
  have hread : EntityFields.read 15 reader = .ok { contentLength := Utf8.ofString "12" } after :=
    read_of_read?_eq_some (by decide +kernel)
  have hevents : reader.events = .ofBytes text ++ after.events := by decide
  obtain ⟨taken, htaken, -, hends⟩ := read_endsAtBlankLine_iff (by decide) hread
  have hsame : taken = text :=
    Events.ofBytes_injective (List.append_cancel_right (htaken.symm.trans hevents))
  rw [hsame] at hends
  exact ⟨by decide, hread, hevents, hends (by decide)⟩

/-- A line whose carriage return is the last byte of a piece.  Its line feed is a piece of
its own and ends the block, so the length which follows is left to be read as content. -/
theorem not_endsAtBlankLine_of_long_line :
    let text := Utf8.ofString "Content-Type: text/plain\r\n"
    let behind := Utf8.ofString "Content-Length: 12\r\n\r\nbody"
    let reader : Reader := { source := [.data (text ++ behind)] }
    let after : Reader := { reader with source := [], buffer := behind }
    EntityFields.read 25 reader = .ok { contentType := Utf8.ofString "text/plain" } after ∧
      reader.events = .ofBytes text ++ after.events ∧
      ¬ EndsAtBlankLine text := by
  intro text behind reader after
  refine ⟨read_of_read?_eq_some (by decide +kernel), by decide, ?_⟩
  exact fun hends => absurd hends.blank (by decide)

end EntityBlock

end StreamingHttp
