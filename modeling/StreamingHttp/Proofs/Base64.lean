import StreamingHttp.Base64
import StreamingHttp.Proofs.Bytes
import StreamingHttp.Proofs.Text.Utf8RoundTrip

/-!
# Reading base64 which was written as such

A client only writes base64.  What it writes is judged by `decode?`, the strict reader of a
server: it asks for complete groups of four, for padding in the last group only, and for zero
bits where the group was filled up.

The symbols of a group carry its 24 bits, six each, and the reader puts the bytes together
again.  In a group which was filled up, the bits of the symbols beyond the bytes are zero, as
the reader asks.  Nothing else is read: a text which the reader accepts is the one which is
written for its bytes.

Nothing is written but symbols and padding.  So there is no white space in base64, and it
may stand in a line of text.
-/

namespace StreamingHttp

namespace Base64

/-! ### The strict reader -/

/-- The value of a symbol. -/
def symbolValue? (c : Char) : Option Nat :=
  alphabet.idxOf? c

/-- The bytes of a list of symbols. -/
def decodeChars? : List Char → Option Bytes
  | [] => some []
  | s :: t :: u :: v :: rest => do
      let s ← symbolValue? s
      let t ← symbolValue? t
      let first := UInt8.ofNat (s * 4 + t / 16)
      if u = padding then
        if v = padding ∧ rest = [] ∧ t % 16 = 0 then some [first] else none
      else
        let u ← symbolValue? u
        let second := UInt8.ofNat (t * 16 + u / 4)
        if v = padding then
          if rest = [] ∧ u % 4 = 0 then some [first, second] else none
        else
          let v ← symbolValue? v
          let more ← decodeChars? rest
          some (first :: second :: UInt8.ofNat (u * 64 + v) :: more)
  | _ => none

/-- Reads base64, strictly. -/
def decode? (text : String) : Option Bytes :=
  decodeChars? text.toList

/-! ### One group -/

theorem symbolValue?_symbol (bits : Nat) :
    symbolValue? (symbol bits) = some (bits % 64) := by
  have hall : ∀ value < 64, symbolValue? (alphabet.getD value padding) = some value := by
    decide +kernel
  exact hall (bits % 64) (Nat.mod_lt _ (by decide))

theorem symbolValue?_padding : symbolValue? padding = none := by
  decide

section Reading

variable {s t u v : Char} {first second third fourth : Nat}

theorem ne_padding_of_symbolValue? (h : symbolValue? s = some first) : s ≠ padding := by
  rintro rfl
  rw [symbolValue?_padding] at h
  cases h

/-- A last group with one byte. -/
theorem decodeChars?_one (hs : symbolValue? s = some first)
    (ht : symbolValue? t = some second) (hzero : second % 16 = 0) :
    decodeChars? [s, t, padding, padding] =
      some [UInt8.ofNat (first * 4 + second / 16)] := by
  simp [decodeChars?, hs, ht, hzero]

/-- A last group with two bytes. -/
theorem decodeChars?_two (hs : symbolValue? s = some first)
    (ht : symbolValue? t = some second) (hu : symbolValue? u = some third)
    (hzero : third % 4 = 0) :
    decodeChars? [s, t, u, padding] =
      some [UInt8.ofNat (first * 4 + second / 16),
        UInt8.ofNat (second * 16 + third / 4)] := by
  simp [decodeChars?, hs, ht, hu, ne_padding_of_symbolValue? hu, hzero]

/-- A group with three bytes. -/
theorem decodeChars?_three (hs : symbolValue? s = some first)
    (ht : symbolValue? t = some second) (hu : symbolValue? u = some third)
    (hv : symbolValue? v = some fourth) (rest : List Char) :
    decodeChars? (s :: t :: u :: v :: rest) =
      (decodeChars? rest).map fun more =>
        UInt8.ofNat (first * 4 + second / 16) :: UInt8.ofNat (second * 16 + third / 4) ::
          UInt8.ofNat (third * 64 + fourth) :: more := by
  cases hrest : decodeChars? rest <;>
    simp [decodeChars?, hs, ht, hu, hv, hrest, ne_padding_of_symbolValue? hu,
      ne_padding_of_symbolValue? hv]

end Reading

/-- The first byte of a group, from the first two of its symbols. -/
theorem first_of_group (a b c : UInt8) :
    UInt8.ofNat (group a b c / 262144 % 64 * 4 + group a b c / 4096 % 64 / 16) = a := by
  have ha := a.toNat_lt
  have hb := b.toNat_lt
  have hc := c.toNat_lt
  apply UInt8.toNat_inj.mp
  rw [UInt8.toNat_ofNat', group]
  omega

/-- The second byte of a group, from the second and the third of its symbols. -/
theorem second_of_group (a b c : UInt8) :
    UInt8.ofNat (group a b c / 4096 % 64 * 16 + group a b c / 64 % 64 / 4) = b := by
  have hb := b.toNat_lt
  have hc := c.toNat_lt
  apply UInt8.toNat_inj.mp
  rw [UInt8.toNat_ofNat', group]
  omega

/-- The third byte of a group, from the last two of its symbols. -/
theorem third_of_group (a b c : UInt8) :
    UInt8.ofNat (group a b c / 64 % 64 * 64 + group a b c % 64) = c := by
  have hc := c.toNat_lt
  apply UInt8.toNat_inj.mp
  rw [UInt8.toNat_ofNat', group]
  omega

/-! ### Any number of groups -/

/-- Decoding inverts encoding. -/
theorem decodeChars?_encodeChars (data : Bytes) :
    decodeChars? (encodeChars data) = some data := by
  induction data using encodeChars.induct with
  | case1 => rfl
  | case2 a =>
      have hzero : group a 0 0 / 4096 % 64 % 16 = 0 := by
        simp only [group, UInt8.toNat_zero]
        omega
      rw [encodeChars, decodeChars?_one (symbolValue?_symbol _) (symbolValue?_symbol _)
        hzero, first_of_group]
  | case3 a b =>
      have hzero : group a b 0 / 64 % 64 % 4 = 0 := by
        simp only [group, UInt8.toNat_zero]
        omega
      rw [encodeChars, decodeChars?_two (symbolValue?_symbol _) (symbolValue?_symbol _)
        (symbolValue?_symbol _) hzero, first_of_group, second_of_group]
  | case4 a b c rest ih =>
      rw [encodeChars, decodeChars?_three (symbolValue?_symbol _) (symbolValue?_symbol _)
        (symbolValue?_symbol _) (symbolValue?_symbol _), ih, first_of_group,
        second_of_group, third_of_group]
      rfl

theorem decode?_encode (data : Bytes) : decode? (encode data) = some data := by
  rw [decode?, encode, String.toList_ofList, decodeChars?_encodeChars]

/-- Written credentials are user and password divided by a colon. -/
theorem decode?_basicCredentials (user password : String) :
    decode? (basicCredentials user password) =
      some (Utf8.ofString user ++ Byte.colon :: Utf8.ofString password) :=
  decode?_encode _

/-! ### Texts which are read -/

/-- A symbol is written for its value, which has six bits. -/
theorem of_symbolValue?_eq_some {c : Char} {value : Nat} (h : symbolValue? c = some value) :
    symbol value = c ∧ value < 64 := by
  rw [symbolValue?, List.idxOf?_eq_some_iff] at h
  obtain ⟨hlt, hc, -⟩ := h
  have hlength : alphabet.length = 64 := by decide
  rw [hlength] at hlt
  refine ⟨?_, hlt⟩
  rw [symbol, Nat.mod_eq_of_lt hlt, List.getD_eq_getElem?_getD,
    List.getElem?_eq_getElem (by omega), Option.getD_some]
  simpa using hc

section Values

variable {first second third fourth : Nat}

/-- The symbols of the bytes which are put together from four values are those of the
values. -/
theorem symbols_of_values (hfirst : first < 64) (hsecond : second < 64) (hthird : third < 64)
    (hfourth : fourth < 64) :
    let bits := group (UInt8.ofNat (first * 4 + second / 16))
      (UInt8.ofNat (second * 16 + third / 4)) (UInt8.ofNat (third * 64 + fourth))
    symbol (bits / 262144) = symbol first ∧ symbol (bits / 4096) = symbol second ∧
      symbol (bits / 64) = symbol third ∧ symbol bits = symbol fourth := by
  intro bits
  have hbits : bits = first * 262144 + second * 4096 + third * 64 + fourth := by
    simp only [bits, group, UInt8.toNat_ofNat']
    omega
  have hsymbol {number value : Nat} (h : number % 64 = value % 64) :
      symbol number = symbol value := by
    rw [symbol, symbol, h]
  refine ⟨hsymbol ?_, hsymbol ?_, hsymbol ?_, hsymbol ?_⟩ <;> omega

theorem encodeChars_one (hfirst : first < 64) (hsecond : second < 64)
    (hzero : second % 16 = 0) :
    encodeChars [UInt8.ofNat (first * 4 + second / 16)] =
      [symbol first, symbol second, padding, padding] := by
  have hfill : UInt8.ofNat (second * 16 + 0 / 4) = 0 := by
    apply UInt8.toNat_inj.mp
    rw [UInt8.toNat_ofNat', UInt8.toNat_zero]
    omega
  have hlast : UInt8.ofNat (0 * 64 + 0) = 0 := rfl
  obtain ⟨hs, ht, -⟩ := symbols_of_values hfirst hsecond (Nat.zero_lt_succ 63)
    (Nat.zero_lt_succ 63)
  rw [hfill, hlast] at hs ht
  rw [encodeChars, hs, ht]

theorem encodeChars_two (hfirst : first < 64) (hsecond : second < 64) (hthird : third < 64)
    (hzero : third % 4 = 0) :
    encodeChars [UInt8.ofNat (first * 4 + second / 16), UInt8.ofNat (second * 16 + third / 4)] =
      [symbol first, symbol second, symbol third, padding] := by
  have hfill : UInt8.ofNat (third * 64 + 0) = 0 := by
    apply UInt8.toNat_inj.mp
    rw [UInt8.toNat_ofNat', UInt8.toNat_zero]
    omega
  obtain ⟨hs, ht, hu, -⟩ := symbols_of_values hfirst hsecond hthird (Nat.zero_lt_succ 63)
  rw [hfill] at hs ht hu
  rw [encodeChars, hs, ht, hu]

end Values

/-- The reader accepts nothing but what is written for the bytes which it gives. -/
theorem eq_encodeChars_of_decodeChars? {chars : List Char} {data : Bytes}
    (h : decodeChars? chars = some data) : chars = encodeChars data := by
  induction chars using decodeChars?.induct generalizing data with
  | case1 =>
      cases h
      rfl
  | case2 s t u v rest ih =>
      simp only [decodeChars?, Option.bind_eq_bind, Option.bind_eq_some_iff] at h
      obtain ⟨first, hs, second, ht, h⟩ := h
      obtain ⟨rfl, hfirst⟩ := of_symbolValue?_eq_some hs
      obtain ⟨rfl, hsecond⟩ := of_symbolValue?_eq_some ht
      split at h
      · next hu =>
          split at h
          · next hlast =>
              obtain ⟨hv, hrest, hzero⟩ := hlast
              cases h
              rw [encodeChars_one hfirst hsecond hzero, hu, hv, hrest]
          · cases h
      simp only [Option.bind_eq_some_iff] at h
      obtain ⟨third, hu, h⟩ := h
      obtain ⟨rfl, hthird⟩ := of_symbolValue?_eq_some hu
      split at h
      · next hv =>
          split at h
          · next hlast =>
              cases h
              rw [encodeChars_two hfirst hsecond hthird hlast.2, hv, hlast.1]
          · cases h
      · simp only [Option.bind_eq_some_iff] at h
        obtain ⟨fourth, hv, more, hmore, h⟩ := h
        obtain ⟨rfl, hfourth⟩ := of_symbolValue?_eq_some hv
        cases h
        obtain ⟨hs, ht, hu, hv⟩ := symbols_of_values hfirst hsecond hthird hfourth
        rw [encodeChars, hs, ht, hu, hv, ih hmore]
  | case3 chars hnil hgroup =>
      rw [decodeChars?] at h
      · cases h
      · exact hnil
      · exact hgroup

/-- The reader is strict: of all texts only the one which is written for them is read as
the bytes. -/
theorem decode?_eq_some_iff {text : String} {data : Bytes} :
    decode? text = some data ↔ text = encode data := by
  constructor
  · intro h
    rw [encode, ← eq_encodeChars_of_decodeChars? h, String.ofList_toList]
  · rintro rfl
    exact decode?_encode data

/-- Bits which belong to no byte have to be zero. -/
example : decode? "YQ==" = some [0x61] ∧ decode? "YR==" = none := by
  decide +kernel

/-! ### What base64 is made of -/

/-- A character which is neither a symbol nor the padding is not written. -/
theorem notMem_encodeChars {c : Char} (hsymbol : symbolValue? c = none)
    (hpadding : c ≠ padding) (data : Bytes) : c ∉ encodeChars data := by
  have hother : ∀ bits, c ≠ symbol bits := by
    rintro bits rfl
    rw [symbolValue?_symbol] at hsymbol
    cases hsymbol
  induction data using encodeChars.induct with
  | case1 => simp [encodeChars]
  | case2 a => simp [encodeChars, hother, hpadding]
  | case3 a b => simp [encodeChars, hother, hpadding]
  | case4 a b c rest ih => simp [encodeChars, hother, ih]

theorem notMem_ofString_encode {b : UInt8} (hb : b < 0x80)
    (hsymbol : symbolValue? (Char.ofNat b.toNat) = none)
    (hpadding : Char.ofNat b.toNat ≠ padding) (data : Bytes) :
    b ∉ Utf8.ofString (encode data) := by
  rw [encode, Utf8.ofString_ofList, Utf8.mem_encode_iff hb]
  exact notMem_encodeChars hsymbol hpadding data

/-- Base64 holds no white space, so it stays on its line. -/
theorem isSpace_of_mem_encode {data : Bytes} :
    ∀ b ∈ Utf8.ofString (encode data), Byte.isSpace b = false := by
  intro b hb
  rw [Byte.isSpace_eq_false_iff]
  intro hspace
  have hall : ∀ other ∈ Byte.whiteSpace, other < 0x80 ∧
      symbolValue? (Char.ofNat other.toNat) = none ∧ Char.ofNat other.toNat ≠ padding := by
    decide +kernel
  obtain ⟨hascii, hsymbol, hpadding⟩ := hall b hspace
  exact notMem_ofString_encode hascii hsymbol hpadding data hb

end Base64

end StreamingHttp
