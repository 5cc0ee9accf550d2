import StreamingHttp.Boundary.Scanner
import StreamingHttp.Transport.Reader

/-!
# Searching a transport for a delimiter

The search reads up to and including the delimiter, which is two hyphens and the
boundary, wherever it stands in a line.  It keeps a *window* as long as the
delimiter and compares it as a whole.  If they differ, the window moves on to
its next hyphen, because a delimiter starts with one, and is filled up again.

The caller may save what is skipped.  If nobody saves it, line ends are skipped
one by one before the search proper, which is the short way to a delimiter that
follows at once.  A search which fails has saved all that it skipped, but not
the window.
-/

namespace StreamingHttp

namespace Boundary

open Transport

/-- What a search has saved, and how it ended. -/
structure Search where
  /-- The bytes saved, if they are saved. -/
  saved : Option Bytes
  result : EStateM.Result Failure Reader Unit

/-- Moves a window on to its next hyphen: what stays in it. -/
def carried (window : Bytes) : Bytes :=
  window.tail.dropWhile (· != Byte.dash)

/-- Moves a window on to its next hyphen: what leaves it. -/
def leaving (window : Bytes) : Bytes :=
  window.take (window.length - (carried window).length)

theorem length_carried_le (window : Bytes) :
    (carried window).length ≤ window.length - 1 := by
  have := (List.dropWhile_suffix (l := window.tail)
    (· != Byte.dash)).length_le
  simpa [carried] using this

/-- Nothing is lost when a window moves on. -/
theorem leaving_append_carried (window : Bytes) :
    leaving window ++ carried window = window := by
  have hsuffix : carried window <:+ window :=
    (List.dropWhile_suffix _).trans (List.tail_suffix _)
  obtain ⟨front, hfront⟩ := hsuffix
  unfold leaving
  generalize carried window = rest at hfront
  subst hfront
  simp

/-- Bounds the reads which a search with this window can still make. -/
def rounds (window : Bytes) (reader : Reader) : Nat :=
  reader.weight + window.length

theorem rounds_carried_lt {boundary window more : Bytes} {reader after : Reader}
    (h : reader.readExact ((delimiter boundary).length - window.length)
      = .ok more after) :
    rounds (carried (window ++ more)) after < rounds window reader := by
  have := Reader.length_of_readExact_ok h
  have := Reader.weight_of_readExact_ok h
  have := length_carried_le (window ++ more)
  simp only [rounds, delimiter, List.length_append, List.length_cons] at *
  omega

/-- Searches with a window which is partly filled. -/
def searchFrom (boundary : Bytes) (saved : Option Bytes) (window : Bytes)
    (reader : Reader) : Search :=
  match _ : reader.readExact ((delimiter boundary).length - window.length) with
  | .error failure after => ⟨saved, .error failure after⟩
  | .ok more after =>
      if window ++ more = delimiter boundary then
        ⟨saved, .ok () after⟩
      else
        searchFrom boundary
          (saved.map (· ++ leaving (window ++ more)))
          (carried (window ++ more)) after
termination_by rounds window reader
decreasing_by exact rounds_carried_lt ‹_›

theorem weight_of_readExact_one {reader after : Reader} {bytes : Bytes}
    (h : reader.readExact 1 = .ok bytes after) :
    after.weight < reader.weight := by
  have := Reader.length_of_readExact_ok h
  have := Reader.weight_of_readExact_ok h
  omega

/-- Reads bytes one by one up to the first which is no line end. -/
def skipLineEnds (reader : Reader) : EStateM.Result Failure Reader Bytes :=
  match _ : reader.readExact 1 with
  | .error failure after => .error failure after
  | .ok bytes after =>
      if bytes.any Byte.isLineEnd then skipLineEnds after
      else .ok bytes after
termination_by reader.weight
decreasing_by exact weight_of_readExact_one ‹_›

/-- Reads up to and including the delimiter.  What is skipped is appended to
`saved`, if there is such a thing. -/
def search (boundary : Bytes) (saved : Option Bytes) (reader : Reader) :
    Search :=
  match saved with
  | some _ => searchFrom boundary saved [] reader
  | none =>
      match skipLineEnds reader with
      | .error failure after => ⟨none, .error failure after⟩
      | .ok window after => searchFrom boundary none window after

end Boundary

end StreamingHttp
