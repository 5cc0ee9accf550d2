import StreamingHttp.Bytes

/-!
# Folded values

The value of a field may go on over several lines.  Unfolding joins the lines by
one space each.  It reads the raw value once:

* a carriage return is dropped;
* a line feed removes the blanks which end what is written so far, writes one
  space and starts skipping;
* a blank is dropped while skipping;
* any other byte is written and ends skipping.
-/

namespace StreamingHttp

namespace Header

/-- What has been written of an unfolded value. -/
structure Unfolding where
  /-- The bytes written, newest byte first. -/
  written : Bytes := []
  /-- Whether blanks are dropped. -/
  skipping : Bool := false
  deriving DecidableEq, Repr

/-- Reads one byte of a raw value. -/
def Unfolding.push (state : Unfolding) (b : UInt8) : Unfolding :=
  if b = Byte.cr then state
  else if b = Byte.lf then
    ⟨Byte.space :: state.written.dropWhile Byte.isBlank, true⟩
  else if state.skipping && Byte.isBlank b then state
  else ⟨b :: state.written, false⟩

/-- The value which a folded raw value stands for. -/
def unfold (raw : Bytes) : Bytes :=
  (raw.foldl Unfolding.push {}).written.reverse

end Header

end StreamingHttp
