import Splice.Text.Basic

/-!
# Words

The words of a program are told apart by their spelling alone: six keywords,
names that may stand for a parameter, literals between `Po` and `op`, and the
control words that may not name anything.
-/

namespace Splice

/-- The words with a fixed meaning, named for what they do in a form. -/
inductive Keyword where
  /-- Opens a macro definition or a function. -/
  | opening
  /-- Opens an application. -/
  | calling
  /-- Closes the innermost form. -/
  | closing
  /-- Stands between the parameter of a function and its body. -/
  | binding
  /-- Stands between the callee of an application and its arguments. -/
  | applying
  /-- Stands between the name of a macro and its body. -/
  | naming
  deriving DecidableEq

namespace Keyword

/-- The spelling of a keyword. -/
def spelling : Keyword → Text
  | opening => "poop".toList
  | calling => "pooping".toList
  | closing => "qooq".toList
  | binding => "poops".toList
  | applying => "poopy".toList
  | naming => "is".toList

/-- Every keyword. -/
def all : List Keyword :=
  [opening, calling, closing, binding, applying, naming]

/-- The keyword with a given spelling. -/
def ofText? (text : Text) : Option Keyword :=
  all.find? fun keyword => keyword.spelling = text

end Keyword

/-- What a literal prints when nothing stands between its two ends. -/
inductive Hollow where
  /-- It prints nothing. -/
  | empty
  /-- It prints one space. -/
  | space
  deriving DecidableEq

namespace Hollow

/-- The text that a hollow literal prints. -/
def text : Hollow → Text
  | empty => []
  | space => [' ']

end Hollow

namespace Word

/-- The name that asks the host for a line. -/
def input : Text := "Input".toList

/-- The name that prints its arguments. -/
def print : Text := "Print".toList

/-- The characters of a parameter name. -/
def isVariableChar (char : Char) : Bool :=
  char.isLower || char == '_'

/-- A parameter name is made of one or more lowercase letters and underscores. -/
def isVariable (text : Text) : Bool :=
  !text.isEmpty && text.all isVariableChar

/-- A literal starts with `Po` and ends with `op`, and the two do not overlap.
No keyword starts with a capital letter, so no keyword is a literal. -/
def isLiteral (text : Text) : Bool :=
  4 ≤ text.length && "Po".toList.isPrefixOf text && "op".toList.isSuffixOf text

/-- A control word is a single line break, carriage return, tab or backslash. -/
def isControl (text : Text) : Bool :=
  text == ['\n'] || text == ['\r'] || text == ['\t'] || text == ['\\']

/-- The text that a literal prints: what stands between its first two and its
last two bytes. A literal of four bytes is hollow. Nothing is printed for a text
that cannot be cut there, because it is too short or a character is in the way. -/
def content (hollow : Hollow) (raw : Text) : Text :=
  if raw.byteLength = 4 then hollow.text
  else (raw.sliceBytes? 2 (raw.byteLength - 2)).getD []

end Word

end Splice
