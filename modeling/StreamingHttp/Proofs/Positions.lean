import StreamingHttp.Proofs.Trim

/-!
# Reading at positions

Bytes may be read at positions which were computed before.  `Bytes.slice?` reads those
between two positions and `Bytes.trimStop?` looks at them one by one, from a position
backwards.  Both give nothing if a position is not one of the byte string, so that a result
says that no position was out of range.
-/

namespace StreamingHttp

namespace Bytes

/-- The bytes from `start` up to, and not including, `stop`.  `none` stands for positions
which are out of order or behind the end. -/
def slice? (start stop : Nat) (bytes : Bytes) : Option Bytes :=
  if start ≤ stop ∧ stop ≤ bytes.length then some ((bytes.take stop).drop start) else none

/-- How far `start` is from `stop`.  `none` stands for positions out of order. -/
def distance? (start stop : Nat) : Option Nat :=
  if start ≤ stop then some (stop - start) else none

/-- Where the bytes before `stop` end without the members of a class at their end. -/
def trimStop? (p : UInt8 → Bool) (bytes : Bytes) : Nat → Option Nat
  | 0 => some 0
  | stop + 1 => do
      let last ← bytes[stop]?
      if p last then trimStop? p bytes stop else some (stop + 1)

variable {p : UInt8 → Bool} {front part back bytes : Bytes} {start stop : Nat}

theorem slice?_append (front part back : Bytes) :
    slice? front.length (front.length + part.length) (front ++ part ++ back) = some part := by
  have htake : (front ++ part ++ back).take (front.length + part.length) = front ++ part := by
    rw [← List.length_append, List.take_left]
  rw [slice?, if_pos (by simp), htake, List.drop_left]

/-- The bytes behind a position. -/
theorem slice?_length (h : start ≤ bytes.length) :
    slice? start bytes.length bytes = some (bytes.drop start) := by
  rw [slice?, if_pos ⟨h, Nat.le_refl _⟩, List.take_length]

/-- The first bytes. -/
theorem slice?_zero (h : stop ≤ bytes.length) : slice? 0 stop bytes = some (bytes.take stop) := by
  rw [slice?, if_pos ⟨Nat.zero_le _, h⟩, List.drop_zero]

theorem of_slice?_eq_some (h : slice? start stop bytes = some part) :
    start ≤ stop ∧ stop ≤ bytes.length ∧ part.length = stop - start := by
  unfold slice? at h
  split at h
  · next hrange =>
      cases h
      refine ⟨hrange.1, hrange.2, ?_⟩
      rw [List.length_drop, List.length_take, Nat.min_eq_left hrange.2]
  · cases h

theorem distance?_of_le (h : start ≤ stop) : distance? start stop = some (stop - start) :=
  if_pos h

/-- Looking at the bytes from a position backwards is trimming those before it. -/
theorem trimStop?_eq (h : stop ≤ bytes.length) :
    trimStop? p bytes stop = some (trimEnd p (bytes.take stop)).length := by
  induction stop with
  | zero => rfl
  | succ stop ih =>
      have hlast : bytes[stop]? = some bytes[stop] := List.getElem?_eq_getElem h
      rw [trimStop?, hlast, trimEnd_eq_rdropWhile, List.take_succ_eq_append_getElem h,
        List.rdropWhile_concat]
      show (if p bytes[stop] = true then trimStop? p bytes stop else some (stop + 1)) = _
      split
      · rw [ih (by omega), trimEnd_eq_rdropWhile]
      · rw [List.length_append, List.length_take, Nat.min_eq_left (by omega)]
        rfl

/-- A byte which is not there is not found. -/
theorem findIdx?_of_notMem {b : UInt8} (h : b ∉ bytes) : bytes.findIdx? (· == b) = none := by
  rw [List.findIdx?_eq_none_iff]
  intro other hother
  simpa using fun heq : other = b => h (heq ▸ hother)

/-- Where a byte stands for the first time. -/
theorem findIdx?_append_cons {b : UInt8} (hfront : b ∉ front) (back : Bytes) :
    (front ++ b :: back).findIdx? (· == b) = some front.length := by
  rw [List.findIdx?_append, findIdx?_of_notMem hfront, List.findIdx?_cons]
  simp

/-- Where the first byte stands which is no member of a class: behind the members which come
first. -/
theorem getD_findIdx?_not (p : UInt8 → Bool) (bytes : Bytes) :
    (bytes.findIdx? fun b => !p b).getD bytes.length = (bytes.takeWhile p).length := by
  induction bytes with
  | nil => rfl
  | cons b bytes ih =>
      rw [List.findIdx?_cons, List.takeWhile_cons]
      cases hb : p b with
      | false => simp
      | true =>
          rw [if_neg (by simp), if_pos rfl, List.length_cons, List.length_cons, ← ih]
          cases bytes.findIdx? fun b => !p b <;> rfl

end Bytes

end StreamingHttp
