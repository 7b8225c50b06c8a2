import Splice.Text.Layout

/-!
# JSON values

A JSON value as it is written: an object keeps its members in order, with
repetitions, and a number keeps its digits. A string that names half of a
surrogate pair is well formed but stands for no text.
-/

namespace Splice

/-- A JSON value. -/
inductive Json where
  | null
  | bool (value : Bool)
  /-- A number, as it is written. -/
  | number (literal : Text)
  /-- A string, with its text if it has one. -/
  | string (text : Option Text)
  | array (items : List Json)
  /-- An object, with each key's text if it has one. -/
  | object (members : List (Option Text × Json))

namespace Json

/-! ## Writing -/

/-- A number below sixteen as a lowercase digit. -/
def hexDigit (value : Nat) : Char :=
  Nat.digitChar (value % 16)

/-- The form of a character inside a JSON string. -/
def escapedChar (char : Char) : Text :=
  match char with
  | '"' => ['\\', '"']
  | '\\' => ['\\', '\\']
  | '\x08' => ['\\', 'b']
  | '\x0c' => ['\\', 'f']
  | '\n' => ['\\', 'n']
  | '\r' => ['\\', 'r']
  | '\t' => ['\\', 't']
  | other =>
      if other.toNat < 32 then
        ['\\', 'u', '0', '0', hexDigit (other.toNat / 16), hexDigit other.toNat]
      else [other]

/-- A text as a JSON string. -/
def quoted (text : Text) : Text :=
  '"' :: text.flatMap escapedChar ++ ['"']

mutual

/-- The lines of a value, two spaces to the right for every level. A string without
a text is written as the empty string. -/
def lines : Json → List Text
  | null => ["null".toList]
  | bool true => ["true".toList]
  | bool false => ["false".toList]
  | number literal => [literal]
  | string text => [quoted (text.getD [])]
  | array [] => ["[]".toList]
  | array items => "[".toList :: (Text.indent 2 (itemLines items) ++ ["]".toList])
  | object [] => ["\x7b\x7d".toList]
  | object members => "\x7b".toList :: (Text.indent 2 (memberLines members) ++ ["\x7d".toList])

/-- The lines of items, with a comma after each but the last. -/
def itemLines : List Json → List Text
  | [] => []
  | [last] => lines last
  | item :: rest => Text.trail [','] (lines item) ++ itemLines rest

/-- The lines of members, with a comma after each but the last. -/
def memberLines : List (Option Text × Json) → List Text
  | [] => []
  | [(key, last)] => Text.lead (quoted (key.getD []) ++ ": ".toList) (lines last)
  | (key, value) :: rest =>
      Text.trail [','] (Text.lead (quoted (key.getD []) ++ ": ".toList) (lines value)) ++
        memberLines rest

end

/-- A value on several lines. -/
def pretty (value : Json) : Text :=
  Text.unlines value.lines

end Json

end Splice
