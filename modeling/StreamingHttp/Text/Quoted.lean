import StreamingHttp.Text.Unprintable

/-!
# Quoted text

Messages show texts in double quotes.  Inside the quotes a double quote and a
backslash are written after a backslash; tab, carriage return, line feed and
NUL are written as a backslash and a letter; every other character without a
glyph of its own is written by its code point, in small hexadecimal digits
without padding.  All else, the apostrophe included, stands for itself.
-/

namespace StreamingHttp

namespace Text

/-- The letter which stands for a character after a backslash. -/
def escapeLetter? : Char → Option Char
  | '"' => some '"'
  | '\\' => some '\\'
  | '\t' => some 't'
  | '\r' => some 'r'
  | '\n' => some 'n'
  | '\x00' => some '0'
  | _ => none

/-- One character as it is written between the quotes. -/
def quotedChar (c : Char) : List Char :=
  match escapeLetter? c with
  | some letter => ['\\', letter]
  | none =>
      if isUnprintable c then
        "\\u\x7b".toList ++ Nat.toDigits 16 c.toNat ++ ['\x7d']
      else
        [c]

/-- A text in double quotes. -/
def quoted (text : String) : String :=
  String.ofList ('"' :: text.toList.flatMap quotedChar ++ ['"'])

end Text

end StreamingHttp
