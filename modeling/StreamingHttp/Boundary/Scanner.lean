import StreamingHttp.Text.Quoted
import StreamingHttp.Text.Utf8

/-!
# Incremental scanner for a boundary line

A boundary line starts with two hyphens and the boundary; whatever follows them
up to the line feed is padding.  The scanner looks for a line feed, the two
hyphens and the boundary, which together are the *pattern*, and skips to the end
of that line.  Three phases:

* `boundary m`: the last `m` bytes are the first `m` of the pattern.  The next
  byte of the pattern leads to `m + 1`, and to `padding` at its end; any other
  line feed leads to 1, any other byte to 0;
* `padding`: a line feed leads to `done`;
* `done`: nothing is taken in any more.

A mismatch never falls back further than to the line feed itself, because a
boundary holds none.

The bytes taken in are kept if the caller asks for them.  Otherwise they are
dropped after every unfinished feed which leaves more than `maxUnsaved` of them.
-/

namespace StreamingHttp

namespace Boundary

/-- Two hyphens and the boundary: what a boundary line starts with. -/
def delimiter (boundary : Bytes) : Bytes :=
  Byte.dash :: Byte.dash :: boundary

/-- The delimiter at the start of a line. -/
def pattern (boundary : Bytes) : Bytes :=
  Byte.lf :: delimiter boundary

/-- How far the scanner has got. -/
inductive Phase where
  /-- So many bytes of the pattern are matched. -/
  | boundary (matched : Nat)
  /-- The pattern is matched, and its line has not ended. -/
  | padding
  /-- The boundary line has ended. -/
  | done
  deriving DecidableEq, Repr

/-- The name of a phase. -/
def Phase.label : Phase → String
  | .boundary _ => "Boundary"
  | .padding => "Padding"
  | .done => "Done"

/-- How the scanner reacts to a byte. -/
def Phase.next (pattern : Bytes) (b : UInt8) : Phase → Phase
  | .boundary matched =>
      if pattern[matched]? = some b then
        if matched + 1 = pattern.length then .padding
        else .boundary (matched + 1)
      else if b = Byte.lf then .boundary 1
      else .boundary 0
  | .padding => if b = Byte.lf then .done else .padding
  | .done => .done

/-- How many bytes may stay in the buffer when they are not asked for. -/
def maxUnsaved : Nat := 4096

/-- The state of the scanner. -/
structure Scanner where
  boundary : Bytes
  /-- Whether the bytes taken in are asked for. -/
  save : Bool
  phase : Phase := .boundary 0
  /-- The bytes taken in and not dropped, newest byte first. -/
  buffer : Bytes := []
  /-- How many bytes of the buffer are scanned. -/
  scanned : Nat := 0
  deriving DecidableEq, Repr

namespace Scanner

/-- A scanner for a boundary. -/
def new (boundary : Bytes) (save : Bool) : Scanner where
  boundary := boundary
  save := save

/-- Forgets everything and looks for another boundary. -/
def reset (_before : Scanner) (boundary : Bytes) (save : Bool) : Scanner :=
  new boundary save

/-- Whether the boundary line has ended. -/
def isDone (scanner : Scanner) : Bool :=
  scanner.phase == .done

/-- Takes in one byte. -/
def push (scanner : Scanner) (b : UInt8) : Scanner :=
  { scanner with
    phase := scanner.phase.next (pattern scanner.boundary) b
    buffer := b :: scanner.buffer
    scanned := scanner.scanned + 1 }

/-- Takes in bytes up to the end of the boundary line.  What follows it is handed
back. -/
def scan (scanner : Scanner) : Bytes → Bytes × Scanner
  | [] => ([], scanner)
  | b :: data =>
      if scanner.isDone then (b :: data, scanner)
      else (scanner.push b).scan data

/-- Drops the scanned bytes of an unfinished scanner if nobody asks for them and
there are many. -/
def compact (scanner : Scanner) : Scanner :=
  if !scanner.isDone && !scanner.save && maxUnsaved < scanner.scanned then
    { scanner with
      buffer := scanner.buffer.take (scanner.buffer.length - scanner.scanned)
      scanned := 0 }
  else
    scanner

/-- Takes in the next bytes.  What follows the boundary line is handed back. -/
def feed (scanner : Scanner) (data : Bytes) : Bytes × Scanner :=
  ((scanner.scan data).1, (scanner.scan data).2.compact)

/-- The bytes taken in, the boundary line included, if they are asked for. -/
def skipped (scanner : Scanner) : Bytes :=
  if scanner.save then scanner.buffer.reverse else []

/-- The state of the scanner in one line. -/
def describe (scanner : Scanner) : String :=
  "HttpMultipartScanner \x7b boundary: "
    ++ Text.quoted (Utf8.lossy scanner.boundary)
    ++ ", state: " ++ scanner.phase.label
    ++ ", buffered: " ++ toString scanner.buffer.length
    ++ " \x7d"

/-- Once the boundary line has ended, everything is handed back. -/
theorem scan_of_isDone {scanner : Scanner} (h : scanner.isDone = true)
    (data : Bytes) : scanner.scan data = (data, scanner) := by
  cases data with
  | nil => rfl
  | cons b data => simp [scan, h]

/-- Bytes which are scanned at once may be cut anywhere: what the first part
hands back goes before the second part. -/
theorem scan_append (scanner : Scanner) (first second : Bytes) :
    scanner.scan (first ++ second) =
      if (scanner.scan first).2.isDone then
        ((scanner.scan first).1 ++ second, (scanner.scan first).2)
      else
        (scanner.scan first).2.scan second := by
  induction first generalizing scanner with
  | nil =>
      by_cases hphase : scanner.isDone = true
      · simp [scan, hphase, scan_of_isDone hphase]
      · simp [scan, hphase]
  | cons b first ih =>
      by_cases hphase : scanner.isDone = true
      · simp [scan, hphase]
      · simp [scan, hphase, ih]

theorem length_scan_le (scanner : Scanner) (data : Bytes) :
    (scanner.scan data).1.length ≤ data.length := by
  induction data generalizing scanner with
  | nil => exact Nat.le_refl _
  | cons b data ih =>
      unfold scan
      split
      · exact Nat.le_refl _
      · exact Nat.le_succ_of_le (ih _)

/-- A scanner which is not done takes in one byte at least. -/
theorem length_feed_lt {scanner : Scanner} {data : Bytes}
    (hphase : scanner.isDone = false) (hdata : data ≠ []) :
    (scanner.feed data).1.length < data.length := by
  cases data with
  | nil => exact absurd rfl hdata
  | cons b data =>
      unfold feed
      rw [scan, if_neg (by simp [hphase])]
      exact Nat.lt_succ_of_le (length_scan_le _ _)

end Scanner

end Boundary

end StreamingHttp
