import Splice.Text.Basic

/-!
# Comments

A line comment runs from two slashes up to the next line break; a block comment
runs from a slash and a star up to the next star and slash, or to the end of the
text. Comments do not nest. `marked` says of every character whether it lies
inside a comment; `withoutComments` blanks those characters byte for byte, so
that every offset keeps its meaning, and leaves line breaks where they are.
-/

namespace Splice.Text

/-- Where a reader of a text stands. -/
inductive Region where
  /-- Outside every comment. -/
  | code
  /-- Inside a line comment. -/
  | line
  /-- Inside a block comment; `star` says that the character just read, after the
  opening, is a star, so that a slash would close the comment. -/
  | block (star : Bool)
  deriving DecidableEq

/-- Pairs every character with whether it lies inside a comment. The line break
that ends a line comment is outside of it. -/
def marked : Region → Text → List (Char × Bool)
  | _, [] => []
  | .code, '/' :: '/' :: rest => ('/', true) :: ('/', true) :: marked .line rest
  | .code, '/' :: '*' :: rest => ('/', true) :: ('*', true) :: marked (.block false) rest
  | .code, char :: rest => (char, false) :: marked .code rest
  | .line, '\n' :: rest => ('\n', false) :: marked .code rest
  | .line, char :: rest => (char, true) :: marked .line rest
  | .block true, '/' :: rest => ('/', true) :: marked .code rest
  | .block _, char :: rest => (char, true) :: marked (.block (char == '*')) rest

/-- What stands for a character inside a comment: one space for each of its
bytes, and a line break for itself. -/
def blank (char : Char) : Text :=
  if char = '\n' then ['\n'] else List.replicate char.utf8Size ' '

/-- What stands for a character once comments are blanked, by whether it lies
inside one. -/
def shown (mark : Char × Bool) : Text :=
  if mark.2 then blank mark.1 else [mark.1]

/-- Blanks every comment of a text. -/
def withoutComments (text : Text) : Text :=
  (marked .code text).flatMap shown

end Splice.Text
