import Splice.Text.Comment
import Splice.Text.Escape

/-!
# Lexemes

A program is cut into words at blanks, after its comments have been blanked. A
lexeme is one such word: its decoded text and the bytes that its written form
takes up in the program.
-/

namespace Splice

/-- A range of bytes, from `start` up to and without `stop`. -/
structure Span where
  start : Nat
  stop : Nat
  deriving DecidableEq

namespace Span

/-- The number of bytes of a span. -/
def length (span : Span) : Nat :=
  span.stop - span.start

end Span

/-- A word of a program: its decoded text and where its written form stands. -/
structure Lexeme where
  text : Text
  span : Span
  deriving DecidableEq

namespace Lexeme

/-- The characters that separate words. -/
def isSeparator (char : Char) : Bool :=
  char == ' ' || char == '\t' || char == '\n' || char == '\r'

/-- The lexeme of a word that starts at byte `start` and whose characters have
been read into `pending`, the last one first. No characters make no lexeme. -/
def ofPending (start : Nat) (pending : Text) : List Lexeme :=
  if pending.isEmpty then []
  else [⟨Text.unescape pending.reverse, ⟨start, start + pending.byteLength⟩⟩]

/-- The lexemes of a text without comments. The word being read started at byte
`start` and is held in `pending`, its last character first. -/
def scanFrom (start : Nat) (pending : Text) : Text → List Lexeme
  | [] => ofPending start pending
  | char :: rest =>
      if isSeparator char then
        ofPending start pending ++ scanFrom (start + pending.byteLength + char.utf8Size) [] rest
      else scanFrom start (char :: pending) rest

/-- The lexemes of a program, in order. -/
def scan (source : Text) : List Lexeme :=
  scanFrom 0 [] source.withoutComments

/-- The words of a program with their blanks written as escapes again. -/
def escapedWords (source : Text) : List Text :=
  (scan source).map fun lexeme => lexeme.text.escape

end Lexeme

end Splice
