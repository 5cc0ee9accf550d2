import StreamingHttp.Percent
import StreamingHttp.Proofs.Bytes

/-!
# The tokens of a percent-encoded text

A percent-encoded text is a sequence of tokens.  A token is either a byte other than the
percent sign, or an escape: a percent sign and two hexadecimal digits of either case.  It
means one byte, and a plus sign means a space.

`decodeAt_spell_append` is the scan over tokens: each of them is read as the byte which it
means, whatever follows.  A text which is no sequence of tokens has a first fault, a percent
sign behind a sequence of tokens which starts no escape.  It is truncated if fewer than two
bytes follow, whatever they are, and otherwise one of the two is no digit.

So a text is decoded if and only if it is a sequence of tokens.  The decoder does not look
back: in a text behind a sequence of tokens it finds what it finds in that text alone, with
the positions moved.
-/

namespace StreamingHttp

namespace Percent

/-! ### Hexadecimal digits -/

/-- The hexadecimal digits with small letters, by value. -/
def smallDigits : Bytes :=
  Utf8.ofString "0123456789abcdef"

/-- The hexadecimal digits with capital letters, by value. -/
def capitalDigits : Bytes :=
  Utf8.ofString "0123456789ABCDEF"

/-- A byte is the hexadecimal digit of a value, in either case. -/
def IsDigitOf (b : UInt8) (value : Nat) : Prop :=
  smallDigits[value]? = some b ∨ capitalDigits[value]? = some b

/-- A hexadecimal digit of either case. -/
def IsHexDigit (b : UInt8) : Prop :=
  ∃ value, IsDigitOf b value

theorem IsDigitOf.lt {b : UInt8} {value : Nat} (h : IsDigitOf b value) : value < 16 := by
  rcases h with h | h
  · exact (List.getElem?_eq_some_iff.mp h).1
  · exact (List.getElem?_eq_some_iff.mp h).1

/-- The value of a digit is found. -/
theorem IsDigitOf.hexValue?_eq {b : UInt8} {value : Nat} (h : IsDigitOf b value) :
    hexValue? b = some (UInt8.ofNat value) := by
  have hall : ∀ value < 16,
      (∀ b ∈ smallDigits[value]?, hexValue? b = some (UInt8.ofNat value)) ∧
        ∀ b ∈ capitalDigits[value]?, hexValue? b = some (UInt8.ofNat value) := by
    decide +kernel
  obtain ⟨hsmall, hcapital⟩ := hall value h.lt
  exact h.elim (hsmall b) (hcapital b)

/-- Nothing but the digits has a value. -/
theorem isDigitOf_of_hexValue? {b value : UInt8} (h : hexValue? b = some value) :
    IsDigitOf b value.toNat := by
  have hall : ∀ byte < 256, ∀ value ∈ hexValue? (UInt8.ofNat byte),
      smallDigits[value.toNat]? = some (UInt8.ofNat byte) ∨
        capitalDigits[value.toNat]? = some (UInt8.ofNat byte) := by
    decide +kernel
  exact Byte.of_forall_lt (p := fun b => ∀ value ∈ hexValue? b,
    smallDigits[value.toNat]? = some b ∨ capitalDigits[value.toNat]? = some b)
    hall b.toNat_lt value h

theorem isSome_hexValue?_iff {b : UInt8} : (hexValue? b).isSome = true ↔ IsHexDigit b := by
  rw [Option.isSome_iff_exists]
  constructor
  · rintro ⟨value, h⟩
    exact ⟨value.toNat, isDigitOf_of_hexValue? h⟩
  · rintro ⟨value, h⟩
    exact ⟨_, h.hexValue?_eq⟩

/-! ### Tokens -/

/-- A hexadecimal digit with its value. -/
structure HexDigit where
  byte : UInt8
  value : Nat
  isDigitOf : IsDigitOf byte value

/-- What stands for one byte. -/
inductive Token where
  /-- A byte other than the percent sign. -/
  | byte (b : UInt8) (ne_percent : b ≠ Byte.percent)
  /-- A percent sign and two digits. -/
  | escape (high low : HexDigit)

namespace Token

/-- A token as it is written. -/
def text : Token → Bytes
  | byte b _ => [b]
  | escape high low => [Byte.percent, high.byte, low.byte]

/-- The byte which a token means. -/
def value : Token → UInt8
  | byte b _ => if b = Byte.plus then Byte.space else b
  | escape high low => UInt8.ofNat (16 * high.value + low.value)

end Token

/-- A sequence of tokens as it is written. -/
def spell (tokens : List Token) : Bytes :=
  tokens.flatMap Token.text

@[simp] theorem spell_nil : spell [] = [] :=
  rfl

@[simp] theorem spell_cons (token : Token) (tokens : List Token) :
    spell (token :: tokens) = token.text ++ spell tokens :=
  rfl

/-! ### Reading tokens -/

theorem decodeAt_cons_of_ne {b : UInt8} (hb : b ≠ Byte.percent) (position : Nat)
    (rest : Bytes) :
    decodeAt position (b :: rest) =
      (decodeAt (position + 1) rest).map
        ((if b = Byte.plus then Byte.space else b) :: ·) := by
  rw [decodeAt.eq_def]
  dsimp only
  rw [if_neg hb]

/-- A token is read as the byte which it means, whatever follows. -/
theorem decodeAt_text_append (token : Token) (position : Nat) (rest : Bytes) :
    decodeAt position (token.text ++ rest) =
      (decodeAt (position + token.text.length) rest).map (token.value :: ·) := by
  cases token with
  | byte b ne_percent => exact decodeAt_cons_of_ne ne_percent position rest
  | escape high low =>
      have hvalue : UInt8.ofNat high.value * 16 + UInt8.ofNat low.value =
          UInt8.ofNat (16 * high.value + low.value) := by
        rw [Nat.mul_comm, UInt8.ofNat_add, UInt8.ofNat_mul]
        rfl
      rw [Token.text, List.cons_append, List.cons_append, List.cons_append,
        List.nil_append, decodeAt, if_pos rfl]
      simp only [high.isDigitOf.hexValue?_eq, low.isDigitOf.hexValue?_eq, hvalue]
      rfl

/-- Tokens are read one by one. -/
theorem decodeAt_spell_append (tokens : List Token) (position : Nat) (rest : Bytes) :
    decodeAt position (spell tokens ++ rest) =
      (decodeAt (position + (spell tokens).length) rest).map
        (tokens.map Token.value ++ ·) := by
  induction tokens generalizing position with
  | nil =>
      rw [spell_nil, List.nil_append, List.length_nil, Nat.add_zero]
      cases decodeAt position rest <;> rfl
  | cons token tokens ih =>
      rw [spell_cons, List.append_assoc, decodeAt_text_append, ih, List.length_append,
        Nat.add_assoc]
      cases decodeAt (position + (token.text.length + (spell tokens).length)) rest <;> rfl

theorem decodeAt_spell (tokens : List Token) (position : Nat) :
    decodeAt position (spell tokens) = .ok (tokens.map Token.value) := by
  have hread := decodeAt_spell_append tokens position []
  rw [List.append_nil, decodeAt] at hread
  rw [hread, Except.map, List.append_nil]

/-! ### Faults -/

/-- The first fault of a text: behind a sequence of tokens, a percent sign which starts no
escape. -/
inductive FirstFault : Bytes → Fault → Prop
  /-- Fewer than two bytes follow the percent sign. -/
  | truncated (tokens : List Token) {after : Bytes} (short : after.length < 2) :
      FirstFault (spell tokens ++ Byte.percent :: after)
        (.truncated (spell tokens).length)
  /-- Two bytes follow the percent sign, and they are not both digits. -/
  | invalidHex (tokens : List Token) {first second : UInt8} (after : Bytes)
      (notDigits : ¬ (IsHexDigit first ∧ IsHexDigit second)) :
      FirstFault (spell tokens ++ Byte.percent :: first :: second :: after)
        (.invalidHex (spell tokens).length)

/-- Where a fault is, if it is one of the text and not of the bytes which it means. -/
def Fault.position? : Fault → Option Nat
  | .truncated position => some position
  | .invalidHex position => some position
  | .notUtf8 _ _ => none

/-- A percent sign stands at the first fault of a text. -/
theorem FirstFault.getElem?_position {text : Bytes} {fault : Fault} (h : FirstFault text fault) :
    ∃ position, fault.position? = some position ∧ text[position]? = some Byte.percent := by
  cases h with
  | truncated tokens short => exact ⟨_, rfl, by simp⟩
  | invalidHex tokens after notDigits => exact ⟨_, rfl, by simp⟩

/-- A fault of a text which stands behind another one of this length. -/
def Fault.shift (offset : Nat) : Fault → Fault
  | .truncated position => .truncated (offset + position)
  | .invalidHex position => .invalidHex (offset + position)
  | .notUtf8 decoded cause => .notUtf8 decoded cause

theorem Fault.shift_zero (fault : Fault) : fault.shift 0 = fault := by
  cases fault <;> simp [Fault.shift]

theorem decodeAt_percent_of_short {after : Bytes} (h : after.length < 2) (position : Nat) :
    decodeAt position (Byte.percent :: after) = .error (.truncated position) := by
  rw [decodeAt.eq_def]
  dsimp only
  rw [if_pos rfl]
  match after, h with
  | [], _ => rfl
  | [_], _ => rfl

theorem decodeAt_percent_of_notDigits {first second : UInt8}
    (h : ¬ (IsHexDigit first ∧ IsHexDigit second)) (position : Nat) (after : Bytes) :
    decodeAt position (Byte.percent :: first :: second :: after) =
      .error (.invalidHex position) := by
  rw [← isSome_hexValue?_iff, ← isSome_hexValue?_iff] at h
  rw [decodeAt, if_pos rfl]
  cases hfirst : hexValue? first with
  | none => rfl
  | some high =>
      cases hsecond : hexValue? second with
      | none => rfl
      | some low => exact absurd ⟨hfirst ▸ rfl, hsecond ▸ rfl⟩ h

/-- The first fault of a text is reported, at its position in the whole text. -/
theorem FirstFault.decodeAt_eq {text : Bytes} {fault : Fault} (h : FirstFault text fault)
    (position : Nat) : decodeAt position text = .error (fault.shift position) := by
  cases h with
  | truncated tokens short =>
      rw [decodeAt_spell_append, decodeAt_percent_of_short short]
      rfl
  | invalidHex tokens after notDigits =>
      rw [decodeAt_spell_append, decodeAt_percent_of_notDigits notDigits]
      rfl

/-- A token in front moves the first fault. -/
theorem FirstFault.text_append {text : Bytes} {fault : Fault} (h : FirstFault text fault)
    (token : Token) : ∃ moved, FirstFault (token.text ++ text) moved := by
  cases h with
  | truncated tokens short =>
      have hmoved := FirstFault.truncated (token :: tokens) short
      rw [spell_cons, List.append_assoc] at hmoved
      exact ⟨_, hmoved⟩
  | invalidHex tokens after notDigits =>
      have hmoved := FirstFault.invalidHex (token :: tokens) after notDigits
      rw [spell_cons, List.append_assoc] at hmoved
      exact ⟨_, hmoved⟩

/-- A text starts with a token, or with its first fault, or it is empty. -/
theorem exists_first_token (text : Bytes) :
    text = [] ∨ (∃ token rest, text = Token.text token ++ rest) ∨
      ∃ fault, FirstFault text fault := by
  match text with
  | [] => exact .inl rfl
  | b :: rest =>
      refine .inr ?_
      by_cases hb : b = Byte.percent
      · subst hb
        match rest with
        | [] => exact .inr ⟨_, .truncated [] (Nat.zero_lt_two)⟩
        | [only] => exact .inr ⟨_, .truncated [] (Nat.one_lt_two)⟩
        | first :: second :: after =>
            by_cases hdigits : IsHexDigit first ∧ IsHexDigit second
            · obtain ⟨⟨high, hhigh⟩, low, hlow⟩ := hdigits
              exact .inl ⟨.escape ⟨first, high, hhigh⟩ ⟨second, low, hlow⟩, after, rfl⟩
            · exact .inr ⟨_, .invalidHex [] after hdigits⟩
      · exact .inl ⟨.byte b hb, rest, rfl⟩

/-- Every text is a sequence of tokens, or it has a first fault. -/
theorem exists_tokens_or_fault (text : Bytes) :
    (∃ tokens, spell tokens = text) ∨ ∃ fault, FirstFault text fault := by
  induction hlength : text.length using Nat.strongRecOn generalizing text with
  | ind length ih =>
      rcases exists_first_token text with rfl | ⟨token, rest, rfl⟩ | hfault
      · exact .inl ⟨[], rfl⟩
      · have hshorter : rest.length < length := by
          rw [← hlength, List.length_append]
          cases token <;> simp [Token.text]
        rcases ih rest.length hshorter rest rfl with ⟨tokens, rfl⟩ | ⟨fault, hfault⟩
        · exact .inl ⟨token :: tokens, rfl⟩
        · exact .inr (hfault.text_append token)
      · exact .inr hfault

theorem decode_eq_ok_iff {text data : Bytes} :
    decode text = .ok data ↔ ∃ tokens, spell tokens = text ∧ tokens.map Token.value = data := by
  constructor
  · intro hread
    rcases exists_tokens_or_fault text with ⟨tokens, rfl⟩ | ⟨fault, hfault⟩
    · rw [decode, decodeAt_spell, Except.ok.injEq] at hread
      exact ⟨tokens, rfl, hread⟩
    · rw [decode, hfault.decodeAt_eq] at hread
      cases hread
  · rintro ⟨tokens, rfl, rfl⟩
    exact decodeAt_spell tokens 0

theorem decode_eq_error_iff {text : Bytes} {fault : Fault} :
    decode text = .error fault ↔ FirstFault text fault := by
  constructor
  · intro hread
    rcases exists_tokens_or_fault text with ⟨tokens, rfl⟩ | ⟨found, hfound⟩
    · rw [decode, decodeAt_spell] at hread
      cases hread
    · rw [decode, hfound.decodeAt_eq, Fault.shift_zero, Except.error.injEq] at hread
      rwa [← hread]
  · intro hfault
    rw [decode, hfault.decodeAt_eq, Fault.shift_zero]

/-- Behind a text which is decoded, a text is read as it is read alone. -/
theorem decode_append {text data : Bytes} (h : decode text = .ok data) (more : Bytes) :
    decode (text ++ more) =
      match decode more with
      | .ok others => .ok (data ++ others)
      | .error fault => .error (fault.shift text.length) := by
  obtain ⟨tokens, rfl, rfl⟩ := decode_eq_ok_iff.mp h
  rw [decode, decodeAt_spell_append, Nat.zero_add]
  rcases exists_tokens_or_fault more with ⟨others, rfl⟩ | ⟨fault, hfault⟩
  · rw [decode, decodeAt_spell, decodeAt_spell]
    rfl
  · rw [decode_eq_error_iff.mpr hfault, hfault.decodeAt_eq]
    rfl

/-! ### A buffer which is used again -/

theorem decodeInto_spell (buffer : Bytes) (tokens : List Token) :
    decodeInto buffer (spell tokens) = (.ok (), tokens.map Token.value) := by
  rw [decodeInto, decode, decodeAt_spell]

theorem FirstFault.decodeInto_eq {text : Bytes} {fault : Fault} (h : FirstFault text fault)
    (buffer : Bytes) : decodeInto buffer text = (.error fault, []) := by
  rw [decodeInto, decode_eq_error_iff.mpr h]

/-- A text is decoded if and only if it is a sequence of tokens, and then the buffer holds
one byte for each of them, whatever it held before.  Of any other text the first fault is
reported, and the buffer is empty.  Behind a text which is decoded, another one is read as it
is read alone. -/
theorem decodeInto_by_tokens (buffer text : Bytes) :
    ((decodeInto buffer text).1 = .ok () ↔ ∃ tokens, spell tokens = text) ∧
      (∀ tokens, spell tokens = text →
        decodeInto buffer text = (.ok (), tokens.map Token.value)) ∧
      ((¬ ∃ tokens, spell tokens = text) →
        ∃ fault, decodeInto buffer text = (.error fault, []) ∧ FirstFault text fault) ∧
      (∀ fault, (decodeInto buffer text).1 = .error fault ↔ FirstFault text fault) ∧
      ∀ data, decode text = .ok data → ∀ more,
        (∀ others, decode more = .ok others → decode (text ++ more) = .ok (data ++ others)) ∧
          ∀ fault, decode more = .error fault →
            decode (text ++ more) = .error (fault.shift text.length) := by
  have happend : ∀ data, decode text = .ok data → ∀ more,
      (∀ others, decode more = .ok others → decode (text ++ more) = .ok (data ++ others)) ∧
        ∀ fault, decode more = .error fault →
          decode (text ++ more) = .error (fault.shift text.length) := by
    intro data hdata more
    constructor
    · intro others hothers
      rw [decode_append hdata, hothers]
    · intro fault hfault
      rw [decode_append hdata, hfault]
  have hfault (fault : Fault) :
      (decodeInto buffer text).1 = .error fault ↔ FirstFault text fault := by
    rw [← decode_eq_error_iff, decodeInto]
    cases decode text <;> simp
  rcases exists_tokens_or_fault text with ⟨tokens, rfl⟩ | ⟨fault, hfound⟩
  · refine ⟨?_, ?_, fun hnone => absurd ⟨tokens, rfl⟩ hnone, hfault, happend⟩
    · rw [decodeInto_spell]
      exact ⟨fun _ => ⟨tokens, rfl⟩, fun _ => rfl⟩
    · rintro others heq
      rw [← heq, decodeInto_spell]
  · have hread := hfound.decodeInto_eq buffer
    have hnone : ¬ ∃ tokens, spell tokens = text := by
      rintro ⟨tokens, rfl⟩
      rw [decodeInto_spell] at hread
      cases hread
    refine ⟨?_, fun tokens heq => absurd ⟨tokens, heq⟩ hnone, fun _ => ⟨fault, hread, hfound⟩,
      hfault, happend⟩
    rw [hread]
    exact ⟨(nomatch ·), fun h => absurd h hnone⟩

/-- The percent sign of an escape starts no other one, and behind a sequence of tokens the
position of a fault counts all bytes before it. -/
theorem decodeInto_by_tokens_cut_escape :
    let text := Utf8.ofString "+%4aé"
    let data := Utf8.ofString " Jé"
    decodeInto [0x78] text = (.ok (), data) ∧
      decode (text ++ Utf8.ofString "%25") = .ok (data ++ Utf8.ofString "%") ∧
      decode (text ++ Utf8.ofString "%25%4") = .error (.truncated 9) ∧
      ∃ fault, decodeInto data (Utf8.ofString "a%%41") = (.error fault, []) ∧
        FirstFault (Utf8.ofString "a%%41") fault := by
  intro text data
  obtain ⟨-, hbuffer, -, -, hmore⟩ := decodeInto_by_tokens [0x78] text
  obtain ⟨haccepted, -, hfault, -, -⟩ := decodeInto_by_tokens data (Utf8.ofString "a%%41")
  let tokens : List Token :=
    [.byte Byte.plus (by decide), .escape ⟨0x34, 4, .inl (by decide)⟩ ⟨0x61, 10, .inl (by decide)⟩,
      .byte 0xC3 (by decide), .byte 0xA9 (by decide)]
  have htokens : spell tokens = text := by decide
  have hdata : tokens.map Token.value = data := by decide
  have hread : decode text = .ok data := decode_eq_ok_iff.mpr ⟨tokens, htokens, hdata⟩
  obtain ⟨hothers, -⟩ := hmore data hread (Utf8.ofString "%25")
  obtain ⟨-, hcut⟩ := hmore data hread (Utf8.ofString "%25%4")
  refine ⟨?_, hothers _ rfl, hcut (.truncated 3) rfl, hfault ?_⟩
  · rw [hbuffer tokens htokens, hdata]
  · rw [← haccepted]
    exact (nomatch ·)

end Percent

end StreamingHttp
