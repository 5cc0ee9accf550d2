import StreamingHttp.Bytes
import StreamingHttp.Transport.Failure

/-!
# Sources

A source is what the reads of a stream will find, in order: data or failures.
One read takes from the first of them.

* Of data it takes as much as it asks for; the rest stays first.
* Data of no bytes is an end of file, found once.
* A failure is found once.

A read after the last of them finds the end of file, however often.

`weight` bounds the number of reads which find anything else.
-/

namespace StreamingHttp

namespace Transport

/-- What a read finds. -/
inductive Arrival where
  | data (bytes : Bytes)
  | failure (failure : Failure)
  deriving DecidableEq, Repr

/-- What the reads of a stream will find. -/
abbrev Source := List Arrival

/-- How many reads can take something from an arrival at most. -/
def Arrival.weight : Arrival → Nat
  | .data bytes => bytes.length + 1
  | .failure _ => 1

namespace Source

/-- Reads `limit` bytes at most. -/
def read (limit : Nat) : Source → EStateM.Result Failure Source Bytes
  | [] => .ok [] []
  | .failure failure :: later => .error failure later
  | .data bytes :: later =>
      if bytes.length ≤ limit then .ok bytes later
      else .ok (bytes.take limit) (.data (bytes.drop limit) :: later)

/-- Reads up to an end of file or a failure.  Interrupted reads are made
again. -/
def readToEnd : Source → Bytes × EStateM.Result Failure Source Unit
  | [] => ([], .ok () [])
  | .failure failure :: later =>
      if failure.isInterrupted then readToEnd later
      else ([], .error failure later)
  | .data bytes :: later =>
      if bytes.isEmpty then ([], .ok () later)
      else (bytes ++ (readToEnd later).1, (readToEnd later).2)

/-- How many reads can take something from a source at most. -/
def weight : Source → Nat
  | [] => 0
  | arrival :: later => arrival.weight + weight later

/-- No more is read than was asked for. -/
theorem length_of_read_ok {limit : Nat} {source after : Source} {bytes : Bytes}
    (h : read limit source = .ok bytes after) : bytes.length ≤ limit := by
  unfold read at h
  split at h
  · cases h
    exact Nat.zero_le _
  · cases h
  · split at h
    · cases h
      assumption
    · cases h
      rw [List.length_take]
      exact Nat.min_le_left _ _

/-- What is read is taken from the source. -/
theorem weight_of_read_ok {limit : Nat} {source after : Source} {bytes : Bytes}
    (h : read limit source = .ok bytes after) :
    bytes.length + weight after ≤ weight source := by
  unfold read at h
  split at h
  · cases h
    simp [weight]
  · cases h
  · split at h
    · cases h
      simp only [weight, Arrival.weight]
      omega
    · cases h
      simp only [weight, Arrival.weight, List.length_take,
        List.length_drop]
      omega

/-- A failure is taken from the source. -/
theorem weight_of_read_error {limit : Nat} {source after : Source}
    {failure : Failure} (h : read limit source = .error failure after) :
    weight after < weight source := by
  unfold read at h
  split at h
  · cases h
  · cases h
    simp only [weight, Arrival.weight]
    omega
  · split at h <;> cases h

end Source

end Transport

end StreamingHttp
