import StreamingHttp.Transport.Reader

/-!
# Lines read from a transport

A line ends with its line feed, or after so many bytes as the caller allows; a
longer line is read in pieces.  A stream which ends before either is an error,
and so is a failure; the bytes read before it are kept then.  Interrupted reads
are made again.
-/

namespace StreamingHttp

namespace Transport

/-- How many bytes are read as one line unless something else is asked for. -/
def defaultMaxLine : Nat := 1024

/-- The limit which a caller asks for: 0 stands for the default. -/
def lineLimit (maxLine : Nat) : Nat :=
  if maxLine = 0 then defaultMaxLine else maxLine

/-- A line, and how reading it ended. -/
structure LineRead where
  line : Bytes
  result : EStateM.Result Failure Reader Unit

namespace LineRead

/-- Whether a line of up to `limit` bytes is whole. -/
def isWhole (limit : Nat) (line : Bytes) : Bool :=
  line ≠ [] && (line.length == limit || line.getLast? == some Byte.lf)

/-- Asks that a line which was read without a failure is whole. -/
def checked (limit : Nat) (read : LineRead) : LineRead :=
  match read.result with
  | .error _ _ => read
  | .ok () after =>
      if isWhole limit read.line then read
      else ⟨read.line, .error .connectionClosed after⟩

theorem result_of_checked_ok {limit : Nat} {read : LineRead} {after : Reader}
    (h : (read.checked limit).result = .ok () after) :
    read.result = .ok () after ∧ isWhole limit read.line = true
      ∧ (read.checked limit).line = read.line := by
  unfold checked at *
  split at h
  · next hresult => simp [hresult] at h
  · next hresult =>
      split at h
      · next hwhole => simp_all
      · cases h

end LineRead

namespace Reader

/-- The bytes of the buffer which fit into a line. -/
def available (limit : Nat) (reader : Reader) : Bytes :=
  reader.buffer.take limit

theorem length_available_le (limit : Nat) (reader : Reader) :
    (reader.available limit).length ≤ reader.buffer.length := by
  rw [available, List.length_take]
  exact Nat.min_le_right _ _

theorem weight_consume_available_lt {limit : Nat} {reader after : Reader}
    (hfill : reader.fill = .ok () after) (h : after.available limit ≠ []) :
    (after.consume (after.available limit).length).weight < reader.weight := by
  have := weight_of_fill_ok hfill
  have := List.length_pos_iff.mpr h
  have := weight_consume (length_available_le limit after)
  omega

/-- Reads through the first line feed, up to `limit` bytes or up to an end of
file, whichever comes first. -/
def collectLine (limit : Nat) (reader : Reader) : LineRead :=
  if limit = 0 then ⟨[], .ok () reader⟩
  else
    match _ : reader.fill with
    | .error failure after =>
        if failure.isInterrupted then collectLine limit after
        else ⟨[], .error failure after⟩
    | .ok () after =>
        match Bytes.splitLine? (after.available limit) with
        | some (line, _) => ⟨line, .ok () (after.consume line.length)⟩
        | none =>
            if after.available limit = [] then ⟨[], .ok () after⟩
            else
              let more := collectLine
                (limit - (after.available limit).length)
                (after.consume (after.available limit).length)
              ⟨after.available limit ++ more.line, more.result⟩
termination_by reader.weight
decreasing_by
  · exact weight_of_fill_error ‹_›
  · exact weight_consume_available_lt ‹_› ‹_›

/-- Reads a line of `maxLine` bytes at most, its line feed included. -/
def readLine (maxLine : Nat) (reader : Reader) : LineRead :=
  (reader.collectLine (lineLimit maxLine)).checked (lineLimit maxLine)

/-- Reads a line, and drops it if reading fails. -/
def line (maxLine : Nat) (reader : Reader) :
    EStateM.Result Failure Reader Bytes :=
  match (reader.readLine maxLine).result with
  | .ok () after => .ok (reader.readLine maxLine).line after
  | .error failure after => .error failure after

/-- What is read is taken from the reader. -/
theorem weight_of_collectLine_ok {limit : Nat} {reader after : Reader}
    (h : (reader.collectLine limit).result = .ok () after) :
    (reader.collectLine limit).line.length + after.weight ≤ reader.weight := by
  fun_induction collectLine limit reader with
  | case1 => cases h; simp
  | case2 limit reader _ failure middle hfill _ ih =>
      have := weight_of_fill_error hfill
      have := ih h
      omega
  | case3 => cases h
  | case4 limit reader _ middle hfill line _ hsplit =>
      cases h
      have := weight_of_fill_ok hfill
      have : line.length ≤ middle.buffer.length := by
        have := congrArg List.length (Bytes.append_eq_of_splitLine? hsplit)
        have := length_available_le limit middle
        simp only [List.length_append] at *
        omega
      have := weight_consume this
      simp only
      omega
  | case5 limit reader _ middle hfill =>
      cases h
      simpa using weight_of_fill_ok hfill
  | case6 limit reader _ middle hfill _ havailable more ih =>
      have := weight_of_fill_ok hfill
      have := weight_consume (length_available_le limit middle)
      have : more.line.length + after.weight ≤ _ := ih h
      simp only [List.length_append]
      omega

/-- A line which is read leaves less to read. -/
theorem weight_of_line_ok {maxLine : Nat} {reader after : Reader} {line : Bytes}
    (h : reader.line maxLine = .ok line after) :
    after.weight < reader.weight := by
  unfold Reader.line at h
  split at h
  · next last hresult =>
      cases h
      have ⟨hcollect, hwhole, _⟩ := LineRead.result_of_checked_ok hresult
      have := weight_of_collectLine_ok hcollect
      simp only [LineRead.isWhole, Bool.and_eq_true, decide_eq_true_eq] at hwhole
      have := List.length_pos_iff.mpr hwhole.1
      omega
  · cases h

end Reader

end Transport

end StreamingHttp
