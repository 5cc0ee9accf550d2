import StreamingHttp.Transport.Source

/-!
# Buffered readers

A reader keeps up to `capacity` bytes which it has read from its source ahead of
its caller.

* `fill` reads from the source, and only if the buffer is empty.
* `read` takes bytes from the filled buffer.  A read of `capacity` bytes or more
  which finds the buffer empty goes to the source directly.
* `readExact` reads until so many bytes are there.  Interrupted reads are made
  again; the bytes read before a failure are lost to the caller.

`weight` counts the bytes which are buffered and bounds what is left of the
source, so every loop which reads ends.
-/

namespace StreamingHttp

namespace Transport

/-- A source with a buffer. -/
structure Reader where
  source : Source
  capacity : Nat := 8192
  buffer : Bytes := []
  deriving DecidableEq, Repr

/-- Something read from a buffered reader, or a failure.  The reader goes on from
where either left it. -/
abbrev Reading (α : Type) := EStateM Failure Reader α

namespace Reader

/-- Bounds how many reads find anything but the end of file. -/
def weight (reader : Reader) : Nat :=
  reader.buffer.length + reader.source.weight

/-- Reads from the source if the buffer is empty. -/
def fill (reader : Reader) : EStateM.Result Failure Reader Unit :=
  if reader.buffer = [] then
    match reader.source.read reader.capacity with
    | .ok bytes source => .ok () { reader with source, buffer := bytes }
    | .error failure source => .error failure { reader with source }
  else
    .ok () reader

/-- Drops bytes from the front of the buffer. -/
def consume (reader : Reader) (count : Nat) : Reader :=
  { reader with buffer := reader.buffer.drop count }

/-- Reads `limit` bytes at most. -/
def read (limit : Nat) (reader : Reader) :
    EStateM.Result Failure Reader Bytes :=
  if reader.buffer = [] ∧ reader.capacity ≤ limit then
    match reader.source.read limit with
    | .ok bytes source => .ok bytes { reader with source }
    | .error failure source => .error failure { reader with source }
  else
    match reader.fill with
    | .ok () filled =>
        .ok (filled.buffer.take limit) (filled.consume limit)
    | .error failure after => .error failure after

theorem weight_of_fill_ok {reader after : Reader}
    (h : reader.fill = .ok () after) : after.weight ≤ reader.weight := by
  unfold fill at h
  split at h
  · next hbuffer =>
      split at h
      · next hread =>
          cases h
          have := Source.weight_of_read_ok hread
          simpa [weight, hbuffer] using this
      · cases h
  · cases h
    exact Nat.le_refl _

theorem weight_of_fill_error {reader after : Reader} {failure : Failure}
    (h : reader.fill = .error failure after) :
    after.weight < reader.weight := by
  unfold fill at h
  split at h
  · next hbuffer =>
      split at h
      · cases h
      · next hread =>
          cases h
          have := Source.weight_of_read_error hread
          simpa [weight, hbuffer] using this
  · cases h

theorem weight_consume {reader : Reader} {count : Nat}
    (h : count ≤ reader.buffer.length) :
    count + (reader.consume count).weight = reader.weight := by
  simp only [weight, consume, List.length_drop]
  omega

theorem weight_of_read_ok {limit : Nat} {reader after : Reader} {bytes : Bytes}
    (h : reader.read limit = .ok bytes after) :
    bytes.length + after.weight ≤ reader.weight := by
  unfold read at h
  split at h
  · next hdirect =>
      split at h
      · next hread =>
          cases h
          have := Source.weight_of_read_ok hread
          simpa [weight, hdirect.1] using this
      · cases h
  · split at h
    · next filled hfill =>
        cases h
        have := weight_of_fill_ok hfill
        simp only [weight, consume, List.length_take, List.length_drop] at *
        omega
    · cases h

theorem weight_of_read_error {limit : Nat} {reader after : Reader}
    {failure : Failure} (h : reader.read limit = .error failure after) :
    after.weight < reader.weight := by
  unfold read at h
  split at h
  · next hdirect =>
      split at h
      · cases h
      · next hread =>
          cases h
          have := Source.weight_of_read_error hread
          simpa [weight, hdirect.1] using this
  · split at h
    · cases h
    · next hfill =>
        cases h
        exact weight_of_fill_error hfill

/-- No more is read than was asked for. -/
theorem length_of_read_ok {limit : Nat} {reader after : Reader} {bytes : Bytes}
    (h : reader.read limit = .ok bytes after) : bytes.length ≤ limit := by
  unfold read at h
  split at h
  · split at h
    · next hread =>
        cases h
        exact Source.length_of_read_ok hread
    · cases h
  · split at h
    · cases h
      rw [List.length_take]
      exact Nat.min_le_left _ _
    · cases h

/-- Reads until `count` bytes are there. -/
def readExact (count : Nat) (reader : Reader) :
    EStateM.Result Failure Reader Bytes :=
  if count = 0 then .ok [] reader
  else
    match h : reader.read count with
    | .ok bytes after =>
        if hbytes : bytes = [] then .error .shortRead after
        else
          have : after.weight < reader.weight := by
            have := weight_of_read_ok h
            have := List.length_pos_iff.mpr hbytes
            omega
          match readExact (count - bytes.length) after with
          | .ok more last => .ok (bytes ++ more) last
          | .error failure last => .error failure last
    | .error failure after =>
        have := weight_of_read_error h
        if failure.isInterrupted then readExact count after
        else .error failure after
termination_by reader.weight

/-- What is read is taken from the reader. -/
theorem weight_of_readExact_ok {count : Nat} {reader after : Reader}
    {bytes : Bytes} (h : reader.readExact count = .ok bytes after) :
    bytes.length + after.weight ≤ reader.weight := by
  fun_induction readExact count reader generalizing bytes after with
  | case1 => cases h; simp
  | case2 => cases h
  | case3 count reader _ first middle hread _ _ more last hmore ih =>
      cases h
      have := weight_of_read_ok hread
      have := ih hmore
      rw [List.length_append]
      omega
  | case4 => cases h
  | case5 count reader _ failure middle hread _ _ ih =>
      have := weight_of_read_error hread
      have := ih h
      omega
  | case6 => cases h

theorem length_of_readExact_ok {count : Nat} {reader after : Reader}
    {bytes : Bytes} (h : reader.readExact count = .ok bytes after) :
    bytes.length = count := by
  fun_induction readExact count reader generalizing bytes after with
  | case1 => cases h; rfl
  | case2 => cases h
  | case3 count reader _ first middle hread _ _ more last hmore ih =>
      cases h
      have := length_of_read_ok hread
      have := ih hmore
      rw [List.length_append]
      omega
  | case4 => cases h
  | case5 count reader _ failure middle hread _ _ ih => exact ih h
  | case6 => cases h

/-- Reads up to an end of file or a failure, first what is buffered. -/
def readToEnd (reader : Reader) :
    Bytes × EStateM.Result Failure Reader Unit :=
  match reader.source.readToEnd with
  | (bytes, .ok () source) =>
      (reader.buffer ++ bytes, .ok () { reader with source, buffer := [] })
  | (bytes, .error failure source) =>
      (reader.buffer ++ bytes,
        .error failure { reader with source, buffer := [] })

end Reader

end Transport

end StreamingHttp
