import Splice.Text.Basic

/-!
# Escapes inside words

A word of a program cannot hold blanks, so it writes them with a backslash:
`\n`, `\t`, `\r` for line break, tab and carriage return, `\s` for a space and
`\\` for the backslash itself. Decoding is lenient: any other escaped character
stands for itself, and a backslash at the very end is kept.
-/

namespace Splice.Text

/-- The character that a backslash followed by `char` stands for. -/
def escapedChar (char : Char) : Char :=
  match char with
  | 'n' => '\n'
  | 't' => '\t'
  | 'r' => '\r'
  | 's' => ' '
  | other => other

/-- Resolves every escape, once, from left to right. -/
def unescape : Text → Text
  | '\\' :: char :: rest => escapedChar char :: unescape rest
  | char :: rest => char :: unescape rest
  | [] => []

/-- The written form of one character inside a word. -/
def escapeChar (char : Char) : Text :=
  match char with
  | '\\' => ['\\', '\\']
  | '\n' => ['\\', 'n']
  | '\t' => ['\\', 't']
  | '\r' => ['\\', 'r']
  | ' ' => ['\\', 's']
  | other => [other]

/-- Writes a text so that it holds no blank and decodes to itself. -/
def escape (text : Text) : Text :=
  text.flatMap escapeChar

end Splice.Text
