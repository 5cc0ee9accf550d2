import StreamingHttp.Delimited
import StreamingHttp.Proofs.Base64
import StreamingHttp.Proofs.Delimited
import Mathlib.Algebra.Ring.Nat

/-!
# Base64 as groups of six bits

The standard describes base64 by bits.  The bits of all bytes are written one after the
other, the highest bit of each byte first, and divided into groups of six, zeros being added
to the last group.  Each group is a number, and each number has its character.  Where the last
three bytes are not complete, each byte which is missing is shown by one `=`.

`encodeChars` works on three bytes at a time.  Their 24 bits are four groups of six, so the
two descriptions agree by induction along its recursion.

Credentials are read back from their text.  The first colon ends the user, so they are what
was written if and only if the user holds none.
-/

namespace StreamingHttp

namespace Base64

/-! ### Bits -/

/-- The lowest bits of a number, as many as asked for, the highest of them first. -/
def binary : Nat → Nat → List Bool
  | 0, _ => []
  | width + 1, number => binary width (number / 2) ++ [number % 2 == 1]

/-- The number which bits stand for, the highest bit first. -/
def ofBinary (bits : List Bool) : Nat :=
  bits.foldl (fun number bit => 2 * number + bit.toNat) 0

@[simp] theorem length_binary (width number : Nat) : (binary width number).length = width := by
  induction width generalizing number with
  | zero => rfl
  | succ width ih => simp [binary, ih]

theorem ofBinary_concat (bits : List Bool) (bit : Bool) :
    ofBinary (bits ++ [bit]) = 2 * ofBinary bits + bit.toNat := by
  simp [ofBinary]

theorem ofBinary_binary (width number : Nat) :
    ofBinary (binary width number) = number % 2 ^ width := by
  induction width generalizing number with
  | zero => simp [binary, ofBinary, Nat.mod_one]
  | succ width ih =>
      have hbit : (number % 2 == 1).toNat = number % 2 := by
        rcases Nat.mod_two_eq_zero_or_one number with h | h <;> simp [h]
      rw [binary, ofBinary_concat, ih, hbit, Nat.pow_succ', Nat.mod_mul]
      omega

/-- The bits of a number are those of its upper part and then those of its lower part. -/
theorem binary_add (upper lower number : Nat) :
    binary (upper + lower) number = binary upper (number / 2 ^ lower) ++ binary lower number := by
  induction lower generalizing number with
  | zero => simp [binary]
  | succ lower ih =>
      rw [← Nat.add_assoc, binary, ih, binary, Nat.div_div_eq_div_mul, Nat.pow_succ',
        List.append_assoc]

/-- Bits above the lowest ones do not count. -/
theorem binary_mod (width number : Nat) :
    binary width (number % 2 ^ width) = binary width number := by
  induction width generalizing number with
  | zero => rfl
  | succ width ih =>
      have hhalf : number % 2 ^ (width + 1) / 2 = number / 2 % 2 ^ width := by
        rw [Nat.pow_succ', Nat.mod_mul]
        omega
      have hbit : number % 2 ^ (width + 1) % 2 = number % 2 := by
        rw [Nat.pow_succ', Nat.mod_mul]
        omega
      rw [binary, binary, hhalf, hbit, ih]

theorem binary_zero (width : Nat) : binary width 0 = List.replicate width false := by
  induction width with
  | zero => rfl
  | succ width ih => simp [binary, ih, List.replicate_succ']

/-- The bits of two numbers, one behind the other, are those of one number. -/
theorem binary_append {upper lower high low : Nat} (h : low < 2 ^ lower) :
    binary upper high ++ binary lower low = binary (upper + lower) (high * 2 ^ lower + low) := by
  have hhigh : (high * 2 ^ lower + low) / 2 ^ lower = high := by
    rw [Nat.add_comm, Nat.add_mul_div_right _ _ (Nat.two_pow_pos lower), Nat.div_eq_of_lt h,
      Nat.zero_add]
  have hlow : (high * 2 ^ lower + low) % 2 ^ lower = low := by
    rw [Nat.add_comm, Nat.add_mul_mod_self_right, Nat.mod_eq_of_lt h]
  rw [binary_add, hhigh, ← binary_mod lower (high * 2 ^ lower + low), hlow]

/-- Bits which are filled up with zeros. -/
theorem binary_append_zeros (width fill number : Nat) :
    binary width number ++ List.replicate fill false =
      binary (width + fill) (number * 2 ^ fill) := by
  rw [← binary_zero, binary_append (Nat.two_pow_pos fill), Nat.add_zero]

/-- The bits of a byte string, the highest bit of each byte first. -/
def bits (data : Bytes) : List Bool :=
  data.flatMap fun b => binary 8 b.toNat

/-! ### Groups of six -/

/-- Groups of six bits.  Zeros are added to a last group of less. -/
def sextets : List Bool → List (List Bool)
  | p :: q :: r :: s :: t :: u :: rest => [p, q, r, s, t, u] :: sextets rest
  | [] => []
  | last => [last ++ List.replicate (6 - last.length) false]

theorem sextets_append {group : List Bool} (h : group.length = 6) (rest : List Bool) :
    sextets (group ++ rest) = group :: sextets rest := by
  match group, h with
  | [_, _, _, _, _, _], _ => rfl

/-- A last group which is not complete. -/
theorem sextets_of_short {last : List Bool} (hne : last ≠ []) (h : last.length < 6) :
    sextets last = [last ++ List.replicate (6 - last.length) false] := by
  match last, hne, h with
  | [_], _, _ => rfl
  | [_, _], _, _ => rfl
  | [_, _, _], _, _ => rfl
  | [_, _, _, _], _, _ => rfl
  | [_, _, _, _, _], _, _ => rfl

theorem sextets_of_short_binary {width fill : Nat} (hwidth : 0 < width) (hfill : 0 < fill)
    (h : width + fill = 6) (number : Nat) :
    sextets (binary width number) = [binary 6 (number * 2 ^ fill)] := by
  have hne : binary width number ≠ [] := by
    rwa [← List.length_pos_iff, length_binary]
  rw [sextets_of_short hne (by rw [length_binary]; omega), length_binary,
    ← h, Nat.add_sub_cancel_left, binary_append_zeros]

/-- The bits of one byte and four zeros are two groups. -/
theorem sextets_bits_one (a : UInt8) :
    sextets (bits [a]) = [binary 6 (group a 0 0 / 262144), binary 6 (group a 0 0 / 4096)] := by
  have hbits : bits [a] = binary 6 (a.toNat / 2 ^ 2) ++ binary 2 a.toNat := by
    rw [← binary_add]
    exact List.append_nil _
  have hfirst : a.toNat / 2 ^ 2 = group a 0 0 / 262144 := by
    simp only [group, UInt8.toNat_zero]
    omega
  have hsecond : a.toNat * 2 ^ 4 = group a 0 0 / 4096 := by
    simp only [group, UInt8.toNat_zero]
    omega
  rw [hbits, sextets_append (length_binary 6 _),
    sextets_of_short_binary (by decide) (by decide) (by decide : 2 + 4 = 6), hfirst, hsecond]

/-- The bits of two bytes and two zeros are three groups. -/
theorem sextets_bits_two (a b : UInt8) :
    sextets (bits [a, b]) =
      [binary 6 (group a b 0 / 262144), binary 6 (group a b 0 / 4096),
        binary 6 (group a b 0 / 64)] := by
  have hb := b.toNat_lt
  let number := a.toNat * 2 ^ 8 + b.toNat
  have hbits : bits [a, b] =
      binary 6 (number / 2 ^ 10) ++ (binary 6 (number / 2 ^ 4) ++ binary 4 number) := by
    rw [← binary_add, ← binary_add, ← @binary_append 8 8 a.toNat b.toNat hb]
    simp [bits]
  have hfirst : number / 2 ^ 10 = group a b 0 / 262144 := by
    simp only [number, group, UInt8.toNat_zero]
    omega
  have hsecond : number / 2 ^ 4 = group a b 0 / 4096 := by
    simp only [number, group, UInt8.toNat_zero]
    omega
  have hthird : number * 2 ^ 2 = group a b 0 / 64 := by
    simp only [number, group, UInt8.toNat_zero]
    omega
  rw [hbits, sextets_append (length_binary 6 _), sextets_append (length_binary 6 _),
    sextets_of_short_binary (by decide) (by decide) (by decide : 4 + 2 = 6), hfirst, hsecond,
    hthird]

/-- The bits of three bytes are four groups. -/
theorem sextets_bits_three (a b c : UInt8) (rest : Bytes) :
    sextets (bits (a :: b :: c :: rest)) =
      binary 6 (group a b c / 262144) :: binary 6 (group a b c / 4096) ::
        binary 6 (group a b c / 64) :: binary 6 (group a b c) :: sextets (bits rest) := by
  have hb := b.toNat_lt
  have hc := c.toNat_lt
  have hlower : b.toNat * 2 ^ 8 + c.toNat < 2 ^ 16 := by omega
  have hgroup : a.toNat * 2 ^ 16 + (b.toNat * 2 ^ 8 + c.toNat) = group a b c := by
    rw [group]
    omega
  have hbits : binary 8 a.toNat ++ (binary 8 b.toNat ++ binary 8 c.toNat) =
      binary 6 (group a b c / 2 ^ 18) ++ (binary 6 (group a b c / 2 ^ 12) ++
        (binary 6 (group a b c / 2 ^ 6) ++ binary 6 (group a b c))) := by
    rw [binary_append hc, binary_append hlower, hgroup, ← binary_add, ← binary_add, ← binary_add]
  simp only [Nat.reducePow] at hbits
  have hfront : bits (a :: b :: c :: rest) =
      (binary 8 a.toNat ++ (binary 8 b.toNat ++ binary 8 c.toNat)) ++ bits rest := by
    simp [bits]
  rw [hfront, hbits, List.append_assoc, List.append_assoc, List.append_assoc,
    sextets_append (length_binary 6 _), sextets_append (length_binary 6 _),
    sextets_append (length_binary 6 _), sextets_append (length_binary 6 _)]

/-! ### Characters -/

/-- The character of a number of six bits: the capitals, the small letters, the digits and
two more, in this order. -/
def standardSymbol (number : Nat) : Char :=
  if number < 26 then Char.ofNat ('A'.toNat + number)
  else if number < 52 then Char.ofNat ('a'.toNat + (number - 26))
  else if number < 62 then Char.ofNat ('0'.toNat + (number - 52))
  else if number = 62 then '+'
  else '/'

theorem symbol_eq_standardSymbol (number : Nat) :
    symbol number = standardSymbol (number % 64) := by
  have hall : ∀ value < 64, alphabet.getD value padding = standardSymbol value := by
    decide +kernel
  exact hall (number % 64) (Nat.mod_lt _ (by decide))

/-- The symbol of the lowest six bits is that of their group. -/
theorem standardSymbol_ofBinary (number : Nat) :
    standardSymbol (ofBinary (binary 6 number)) = symbol number := by
  have hpow : 2 ^ 6 = 64 := rfl
  rw [ofBinary_binary, symbol_eq_standardSymbol, hpow]

/-- What base64 is by the standard: the characters of the groups of six bits, and a padding
for each byte which is missing in the last three. -/
def standardText (data : Bytes) : List Char :=
  (sextets (bits data)).map (fun sextet => standardSymbol (ofBinary sextet)) ++
    List.replicate ((3 - data.length % 3) % 3) padding

theorem encodeChars_eq_standardText (data : Bytes) : encodeChars data = standardText data := by
  induction data using encodeChars.induct with
  | case1 => rfl
  | case2 a =>
      rw [encodeChars, standardText, sextets_bits_one]
      simp [standardSymbol_ofBinary, List.replicate]
  | case3 a b =>
      rw [encodeChars, standardText, sextets_bits_two]
      simp [standardSymbol_ofBinary]
  | case4 a b c rest ih =>
      have hlength : (a :: b :: c :: rest).length % 3 = rest.length % 3 :=
        Nat.add_mod_right rest.length 3
      rw [encodeChars, ih, standardText, standardText, sextets_bits_three, hlength]
      simp [standardSymbol_ofBinary]

/-- The character of a group is none of those which fill up the text. -/
theorem standardSymbol_ne_padding (number : Nat) : standardSymbol number ≠ padding := by
  intro h
  rcases Nat.lt_or_ge number 64 with hlt | hge
  · have hall : ∀ value < 64, standardSymbol value ≠ padding := by decide +kernel
    exact hall number hlt h
  · have hlast : standardSymbol number = '/' := by
      rw [standardSymbol, if_neg (by omega), if_neg (by omega), if_neg (by omega),
        if_neg (by omega)]
    rw [hlast] at h
    revert h
    decide

theorem length_encodeChars (data : Bytes) :
    (encodeChars data).length = 4 * ((data.length + 2) / 3) := by
  induction data using encodeChars.induct with
  | case1 => rfl
  | case2 a => simp [encodeChars]
  | case3 a b => simp [encodeChars]
  | case4 a b c rest ih =>
      simp only [encodeChars, List.length_cons, ih]
      omega

/-! ### Credentials -/

/-- A text divided at its first colon. -/
def divideCredentials? (chars : List Char) : Option (String × String) :=
  match Delimited.cut ':' chars with
  | (user, some password) => some (String.ofList user, String.ofList password)
  | (_, none) => none

/-- The user and the password which credentials stand for. -/
def readCredentials? (text : String) : Option (String × String) := do
  let bytes ← decode? text
  let chars ← (Utf8.decode bytes).toOption
  divideCredentials? chars

theorem readCredentials?_basicCredentials (user password : String) :
    readCredentials? (basicCredentials user password) =
      divideCredentials? (user.toList ++ ':' :: password.toList) := by
  have hpair : Utf8.ofString user ++ Byte.colon :: Utf8.ofString password =
      Utf8.encode (user.toList ++ ':' :: password.toList) := by
    rw [Utf8.encode_append, Utf8.encode_cons]
    rfl
  rw [readCredentials?, decode?_basicCredentials, hpair, Option.bind_eq_bind, Option.bind_some,
    Utf8.decode_encode]
  rfl

/-- Only the user has to be without a colon. -/
theorem readCredentials?_eq_iff {user password : String} :
    readCredentials? (basicCredentials user password) = some (user, password) ↔
      ':' ∉ user.toList := by
  rw [readCredentials?_basicCredentials, divideCredentials?]
  constructor
  · intro h
    have hfront := Delimited.notMem_cut_fst ':' (user.toList ++ ':' :: password.toList)
    split at h
    · next front after hcut =>
        rw [hcut] at hfront
        have huser : String.ofList front = user := congrArg Prod.fst (Option.some.inj h)
        rwa [← huser, String.toList_ofList]
    · cases h
  · intro h
    rw [Delimited.cut_append_cons h]
    simp

/-- What is written is base64 by the standard, its length is fixed by that of the data, and
the strict reader gives the data for it and for no other text.  Credentials hold the user and
the password, which the first colon divides if the user has none. -/
theorem encode_by_sextets :
    (∀ data : Bytes,
      (encode data).length = 4 * ((data.length + 2) / 3) ∧
        (encode data).toList = standardText data ∧
        (∀ sextet, standardSymbol (ofBinary sextet) ≠ padding) ∧
        (∀ text, decode? text = some data ↔ text = encode data) ∧
        ∀ other, encode other = encode data ↔ other = data) ∧
      ∀ user password : String,
        decode? (basicCredentials user password) =
            some (Utf8.ofString user ++ Byte.colon :: Utf8.ofString password) ∧
          (readCredentials? (basicCredentials user password) = some (user, password) ↔
            ':' ∉ user.toList) := by
  refine ⟨fun data => ⟨?_, ?_, fun _ => standardSymbol_ne_padding _,
    fun _ => decode?_eq_some_iff, fun other => ?_⟩,
    fun user password => ⟨decode?_basicCredentials user password, readCredentials?_eq_iff⟩⟩
  · rw [encode, String.length_ofList, length_encodeChars]
  · rw [encode, String.toList_ofList, encodeChars_eq_standardText]
  · rw [← decode?_eq_some_iff, decode?_encode, Option.some.injEq, eq_comm]

end Base64

end StreamingHttp
