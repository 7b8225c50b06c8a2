import Splice.Term.Cursor

/-!
# Reading terms

A program is read as one sequence: all of its words have to belong to it. Parts of
a program are read up to the word that ends them, with the words after it left
over.
-/

namespace Splice

namespace Sequence

/-- Reads a sequence and gives the words left over, the first of which closes a
form or ends a callee. -/
def read (lexemes : List Lexeme) : Except ParseFault (List Term × List Lexeme) :=
  Cursor.read .sequence nestingLimit .start lexemes

/-- Reads the rest of a definition or function after the word that opened it. The
form itself does not count as a level of nesting. -/
def readAfterOpening (opener : Lexeme) (lexemes : List Lexeme) :
    Except ParseFault (List Term × List Lexeme) :=
  Cursor.read .form (nestingLimit + 1) (.afterOpening opener) lexemes

/-- Reads the rest of an application after the word that opened it. The form
itself does not count as a level of nesting. -/
def readAfterCalling (opener : Lexeme) (lexemes : List Lexeme) :
    Except ParseFault (List Term × List Lexeme) :=
  Cursor.read .form (nestingLimit + 1) (.afterCalling opener) lexemes

/-- How many leftover words a fault quotes. -/
def previewLength : Nat := 5

/-- Reads all words as one sequence; a word left over is a fault. -/
def ofLexemes (lexemes : List Lexeme) : Except ParseFault (List Term) :=
  match read lexemes with
  | .error fault => .error fault
  | .ok (terms, []) => .ok terms
  | .ok (_, first :: others) => .error (.trailing first (others.take (previewLength - 1)))

/-- Reads a program called `sourceName`. -/
def parse (sourceName source : Text) : Except Error (List Term) :=
  match ofLexemes (Lexeme.scan source) with
  | .ok terms => .ok terms
  | .error fault => .error (.parse ⟨sourceName, source.byteLength, fault⟩)

end Sequence

end Splice
