import StreamingHttp.Proofs.Boundary.SearchPosition
import StreamingHttp.Proofs.Entity.HeadReading

/-!
# Reads do not see how a stream is cut

Two readers are *alike* if they show the same events: the same bytes, failures and ends
of file are left of both, whatever their arrivals, their buffers and their capacities
are, and however often their reads are interrupted.

* `EndAlike` says that two results are the same but for the readers they leave, and that
  these are alike.
* Every operation takes alike readers to such results.  The two which read exactly, or a
  line, follow the events; the loops built on them follow by induction on the reads of
  one of the two readers.
* `run` performs operations one after the other, whether or not they fail.
-/

namespace StreamingHttp

namespace Transport

namespace Reader

/-- The same events are left of two readers. -/
def Alike (reader other : Reader) : Prop :=
  ∃ events, reader.Shows events ∧ other.Shows events

theorem alike_of_events_eq {reader other : Reader} (hreader : 0 < reader.capacity)
    (hother : 0 < other.capacity) (h : reader.events = other.events) :
    reader.Alike other :=
  ⟨other.events, ⟨hreader, h⟩, ⟨hother, rfl⟩⟩

theorem Alike.events_eq {reader other : Reader} (h : reader.Alike other) :
    reader.events = other.events := by
  obtain ⟨events, hreader, hother⟩ := h
  exact hreader.events_eq.trans hother.events_eq.symm

end Reader

/-- Two results with the same value or the same failure, which leave alike readers. -/
inductive EndAlike {α : Type} : EStateM.Result Failure Reader α →
    EStateM.Result Failure Reader α → Prop where
  | ok {a : α} {after other : Reader} (h : after.Alike other) :
      EndAlike (.ok a after) (.ok a other)
  | error {failure : Failure} {after other : Reader} (h : after.Alike other) :
      EndAlike (.error failure after) (.error failure other)

namespace EndAlike

variable {α : Type} {result other : EStateM.Result Failure Reader α}

theorem exists_ok (h : EndAlike result other) {a : α} {after : Reader}
    (hresult : result = .ok a after) :
    ∃ last, other = .ok a last ∧ after.Alike last := by
  subst hresult
  cases h with
  | ok hafter => exact ⟨_, rfl, hafter⟩

theorem exists_error (h : EndAlike result other) {failure : Failure} {after : Reader}
    (hresult : result = .error failure after) :
    ∃ last, other = .error failure last ∧ after.Alike last := by
  subst hresult
  cases h with
  | error hafter => exact ⟨_, rfl, hafter⟩

end EndAlike

/-- Two results which agree with the same events end alike. -/
theorem Agrees.endAlike {α : Type} {result other : EStateM.Result Failure Reader α}
    {expected : EStateM.Result Failure Events α} (h : Agrees result expected)
    (hother : Agrees other expected) : EndAlike result other := by
  cases h with
  | ok hafter =>
      cases hother with
      | ok hothers => exact .ok ⟨_, hafter, hothers⟩
  | error hafter =>
      cases hother with
      | error hothers => exact .error ⟨_, hafter, hothers⟩

namespace Reader

variable {reader other : Reader}

/-- Alike readers read so many bytes alike. -/
theorem Alike.readExact (h : reader.Alike other) (count : Nat) :
    EndAlike (reader.readExact count) (other.readExact count) := by
  obtain ⟨events, hreader, hother⟩ := h
  exact (hreader.agrees_readExact count).endAlike (hother.agrees_readExact count)

end Reader

/-- Whether a line is whole is a matter of its bytes. -/
theorem LineRead.endAlike_checked {read other : LineRead} (hline : read.line = other.line)
    (h : EndAlike read.result other.result) (limit : Nat) :
    (read.checked limit).line = (other.checked limit).line ∧
      EndAlike (read.checked limit).result (other.checked limit).result := by
  obtain ⟨line, result⟩ := read
  obtain ⟨otherLine, otherResult⟩ := other
  dsimp only at hline h
  subst hline
  cases h with
  | ok hafter =>
      by_cases hwhole : isWhole limit line = true
      · simp only [checked, if_pos hwhole, true_and]
        exact .ok hafter
      · simp only [checked, if_neg hwhole, true_and]
        exact .error hafter
  | error hafter => exact ⟨rfl, .error hafter⟩

namespace Reader

variable {reader other : Reader}

/-- Alike readers read the same line, or the same part of one before a failure. -/
theorem Alike.readLine (h : reader.Alike other) (maxLine : Nat) :
    (reader.readLine maxLine).line = (other.readLine maxLine).line ∧
      EndAlike (reader.readLine maxLine).result (other.readLine maxLine).result := by
  obtain ⟨events, hreader, hother⟩ := h
  obtain ⟨hline, hagrees⟩ := hreader.agrees_collectLine (lineLimit maxLine)
  obtain ⟨hotherLine, hotherAgrees⟩ := hother.agrees_collectLine (lineLimit maxLine)
  exact LineRead.endAlike_checked (hline.trans hotherLine.symm)
    (hagrees.endAlike hotherAgrees) (lineLimit maxLine)

theorem Alike.line (h : reader.Alike other) (maxLine : Nat) :
    EndAlike (reader.line maxLine) (other.line maxLine) := by
  obtain ⟨hline, hresult⟩ := h.readLine maxLine
  rw [Reader.line, Reader.line, hline]
  generalize (reader.readLine maxLine).result = result at hresult
  generalize (other.readLine maxLine).result = otherResult at hresult
  cases hresult with
  | ok hafter => exact .ok hafter
  | error hafter => exact .error hafter

end Reader

end Transport

open Transport

/-! ### Header blocks -/

namespace EntityBlock

/-- Alike readers read the same header block. -/
theorem endAlike_readFrom {reader other : Reader} (h : reader.Alike other)
    (maxLine : Nat) (block : EntityBlock) :
    EndAlike (block.readFrom maxLine reader) (block.readFrom maxLine other) := by
  fun_induction readFrom maxLine block reader generalizing other with
  | case1 block reader failure after hline =>
      obtain ⟨last, hother, hlast⟩ := (h.line maxLine).exists_error hline
      rw [readFrom_of_line_error hother]
      exact .error hlast
  | case2 block reader line after hline hblank =>
      obtain ⟨last, hother, hlast⟩ := (h.line maxLine).exists_ok hline
      rw [readFrom_of_line_ok hother, if_pos hblank]
      exact .ok hlast
  | case3 block reader line after hline htext ih =>
      obtain ⟨last, hother, hlast⟩ := (h.line maxLine).exists_ok hline
      rw [readFrom_of_line_ok hother, if_neg htext]
      exact ih hlast

end EntityBlock

/-! ### Searches -/

namespace Boundary

variable {boundary : Bytes} {reader other : Reader}

/-- Alike readers are searched alike: the same is saved. -/
theorem endAlike_searchFrom (h : reader.Alike other) (saved : Option Bytes)
    (window : Bytes) :
    (searchFrom boundary saved window reader).saved =
        (searchFrom boundary saved window other).saved ∧
      EndAlike (searchFrom boundary saved window reader).result
        (searchFrom boundary saved window other).result := by
  fun_induction searchFrom boundary saved window reader generalizing other with
  | case1 saved window reader failure after hread =>
      obtain ⟨last, hother, hlast⟩ := (h.readExact _).exists_error hread
      rw [searchFrom_eq, hother]
      exact ⟨rfl, .error hlast⟩
  | case2 saved window reader more after hread hfound =>
      obtain ⟨last, hother, hlast⟩ := (h.readExact _).exists_ok hread
      rw [searchFrom_eq, hother]
      simp only [if_pos hfound, true_and]
      exact .ok hlast
  | case3 saved window reader more after hread hmoved ih =>
      obtain ⟨last, hother, hlast⟩ := (h.readExact _).exists_ok hread
      rw [searchFrom_eq boundary saved window other, hother]
      simp only [if_neg hmoved]
      exact ih hlast

/-- Alike readers skip the same line ends. -/
theorem endAlike_skipLineEnds (h : reader.Alike other) :
    EndAlike (skipLineEnds reader) (skipLineEnds other) := by
  fun_induction skipLineEnds reader generalizing other with
  | case1 reader failure after hread =>
      obtain ⟨last, hother, hlast⟩ := (h.readExact 1).exists_error hread
      rw [skipLineEnds_eq, hother]
      exact .error hlast
  | case2 reader bytes after hread hskip ih =>
      obtain ⟨last, hother, hlast⟩ := (h.readExact 1).exists_ok hread
      rw [skipLineEnds_eq other, hother]
      simp only [if_pos hskip]
      exact ih hlast
  | case3 reader bytes after hread hstop =>
      obtain ⟨last, hother, hlast⟩ := (h.readExact 1).exists_ok hread
      rw [skipLineEnds_eq, hother]
      simp only [if_neg hstop]
      exact .ok hlast

/-- Alike readers are searched alike, with or without the line ends skipped first. -/
theorem endAlike_search (h : reader.Alike other) (boundary : Bytes)
    (saved : Option Bytes) :
    (search boundary saved reader).saved = (search boundary saved other).saved ∧
      EndAlike (search boundary saved reader).result
        (search boundary saved other).result := by
  cases saved with
  | some saved => exact endAlike_searchFrom h (some saved) []
  | none =>
      have hskipped := endAlike_skipLineEnds h
      rw [search, search]
      generalize skipLineEnds reader = result at hskipped
      generalize skipLineEnds other = otherResult at hskipped
      cases hskipped with
      | ok hafter => exact endAlike_searchFrom hafter none _
      | error hafter => exact ⟨rfl, .error hafter⟩

end Boundary

/-! ### Runs -/

namespace Transport

/-- What a caller asks of a reader. -/
inductive Operation where
  | readExact (count : Nat)
  | readLine (maxLine : Nat)
  | readHead (maxLine : Nat)
  | search (boundary : Bytes) (saved : Option Bytes)
  deriving DecidableEq, Repr

/-- What a caller gets.  Of a line which could not be read the bytes before the failure
are kept, and so is what a search has saved. -/
inductive Outcome where
  | bytes (result : Except Failure Bytes)
  | line (line : Bytes) (result : Except Failure Unit)
  | head (result : Except Failure EntityFields)
  | search (saved : Option Bytes) (result : Except Failure Unit)

/-- The value or the failure of a result. -/
def valueOf {α : Type} : EStateM.Result Failure Reader α → Except Failure α
  | .ok a _ => .ok a
  | .error failure _ => .error failure

/-- The reader which a result leaves. -/
def readerOf {α : Type} : EStateM.Result Failure Reader α → Reader
  | .ok _ after => after
  | .error _ after => after

theorem EndAlike.valueOf_eq {α : Type} {result other : EStateM.Result Failure Reader α}
    (h : EndAlike result other) : valueOf result = valueOf other := by
  cases h with
  | ok _ => rfl
  | error _ => rfl

theorem EndAlike.alike_readerOf {α : Type} {result other : EStateM.Result Failure Reader α}
    (h : EndAlike result other) : (readerOf result).Alike (readerOf other) := by
  cases h with
  | ok hafter => exact hafter
  | error hafter => exact hafter

namespace Reader

/-- Performs an operation. -/
def perform (reader : Reader) : Operation → Outcome × Reader
  | .readExact count =>
      (.bytes (valueOf (reader.readExact count)), readerOf (reader.readExact count))
  | .readLine maxLine =>
      let read := reader.readLine maxLine
      (.line read.line (valueOf read.result), readerOf read.result)
  | .readHead maxLine =>
      let result := EntityFields.read maxLine reader
      (.head (valueOf result), readerOf result)
  | .search boundary saved =>
      let search := Boundary.search boundary saved reader
      (.search search.saved (valueOf search.result), readerOf search.result)

/-- Performs operations one after the other, also after failures. -/
def run (reader : Reader) : List Operation → List Outcome × Reader
  | [] => ([], reader)
  | operation :: later =>
      let more := (reader.perform operation).2.run later
      ((reader.perform operation).1 :: more.1, more.2)

variable {reader other : Reader}

/-- One operation has the same outcome on alike readers and leaves alike readers. -/
theorem Alike.perform (h : reader.Alike other) (operation : Operation) :
    (reader.perform operation).1 = (other.perform operation).1 ∧
      (reader.perform operation).2.Alike (other.perform operation).2 := by
  cases operation with
  | readExact count =>
      have hread := h.readExact count
      exact ⟨congrArg Outcome.bytes hread.valueOf_eq, hread.alike_readerOf⟩
  | readLine maxLine =>
      obtain ⟨hline, hresult⟩ := h.readLine maxLine
      exact ⟨congrArg₂ Outcome.line hline hresult.valueOf_eq, hresult.alike_readerOf⟩
  | readHead maxLine =>
      have hread := EntityBlock.endAlike_readFrom h maxLine {}
      exact ⟨congrArg Outcome.head hread.valueOf_eq, hread.alike_readerOf⟩
  | search boundary saved =>
      obtain ⟨hsaved, hresult⟩ := Boundary.endAlike_search h boundary saved
      exact ⟨congrArg₂ Outcome.search hsaved hresult.valueOf_eq,
        hresult.alike_readerOf⟩

/-- So have any number of operations. -/
theorem Alike.run (h : reader.Alike other) (operations : List Operation) :
    (reader.run operations).1 = (other.run operations).1 ∧
      (reader.run operations).2.Alike (other.run operations).2 := by
  induction operations generalizing reader other with
  | nil => exact ⟨rfl, h⟩
  | cons operation later ih =>
      obtain ⟨houtcome, hafter⟩ := h.perform operation
      obtain ⟨hlater, hlast⟩ := ih hafter
      exact ⟨congrArg₂ List.cons houtcome hlater, hlast⟩

/-- Whatever two readers are asked for, and whether or not it fails, the outcomes are the
same if the same bytes, failures and ends of file are left of their streams.  What is
left afterwards is the same again. -/
theorem run_eq_of_events_eq (hreader : 0 < reader.capacity) (hother : 0 < other.capacity)
    (hevents : reader.events = other.events) (operations : List Operation) :
    (reader.run operations).1 = (other.run operations).1 ∧
      (reader.run operations).2.events = (other.run operations).2.events := by
  obtain ⟨houtcomes, hafter⟩ := (alike_of_events_eq hreader hother hevents).run operations
  exact ⟨houtcomes, hafter.events_eq⟩

/-- A line, a header block which a failure cuts short, and a delimiter which the end of
the stream does.  One reader takes single bytes, the other holds some of them. -/
theorem run_eq_cut_in_lines :
    let dropped : Failure := ⟨.connectionReset, "reset"⟩
    let again : Failure := ⟨.interrupted, ""⟩
    let single : Reader :=
      { source :=
          [.data [0x61, 0x0D], .failure again, .data [0x0A, 0x41], .failure dropped,
            .data [0x3A, 0x0D, 0x0A, 0x2D], .data [0x2D]]
        capacity := 1 }
    let holding : Reader :=
      { source :=
          [.data [0x41], .failure dropped, .failure again, .data [0x3A],
            .data [0x0D, 0x0A, 0x2D, 0x2D]]
        buffer := [0x61, 0x0D, 0x0A] }
    let operations : List Operation :=
      [.readLine 0, .readHead 2, .readExact 1, .search [0x66] none, .readLine 1]
    0 < single.capacity ∧ 0 < holding.capacity ∧ single.events = holding.events ∧
      (single.run operations).1 = (holding.run operations).1 ∧
      (single.run operations).2.events = (holding.run operations).2.events := by
  intro dropped again single holding operations
  have hevents : single.events = holding.events := by decide
  exact ⟨by decide, by decide, hevents,
    run_eq_of_events_eq (by decide) (by decide) hevents operations⟩

end Reader

end Transport

end StreamingHttp
