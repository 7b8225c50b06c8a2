import Splice.Text.Hidden

/-!
# Quoted texts

A quoted text stands between double quotes on one line. Quotes and backslashes are
escaped, the common controls have a letter, and every other hidden character is
named by its code point in hexadecimal digits.
-/

namespace Splice.Text

/-- The name of a character by its code point. -/
def numbered (char : Char) : Text :=
  "\\u\x7b".toList ++ Nat.toDigits 16 char.toNat ++ "\x7d".toList

/-- The form of a character inside a quoted text. Visible ASCII characters are told
apart without the table. -/
def quotedChar (char : Char) : Text :=
  match char with
  | '"' => ['\\', '"']
  | '\\' => ['\\', '\\']
  | '\n' => ['\\', 'n']
  | '\r' => ['\\', 'r']
  | '\t' => ['\\', 't']
  | '\x00' => ['\\', '0']
  | other =>
      if 32 ≤ other.toNat && other.toNat < 127 then [other]
      else if isHidden other then numbered other
      else [other]

/-- A text between double quotes. -/
def quoted (text : Text) : Text :=
  '"' :: text.flatMap quotedChar ++ ['"']

end Splice.Text
