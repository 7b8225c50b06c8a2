import Splice.Error
import Splice.Term.Render

/-!
# Cursors

The words of a program are read from left to right, one at a time. A cursor
holds the forms that are open, the terms read so far in the innermost one, and
what the next word is for. A word either moves the cursor, or is no part of what
is being read, or is a fault. Nothing is looked at twice, so a fault depends on
the words up to it alone.
-/

namespace Splice

/-- An open form, by what has been read of it before its innermost sequence. -/
inductive Frame where
  /-- The body of a macro definition is being read. -/
  | definition (name : Text)
  /-- The body of a function is being read. -/
  | function (param : Text)
  /-- The callee of an application is being read. -/
  | callee (opener : Lexeme)
  /-- The arguments of an application are being read. -/
  | arguments (opener : Lexeme) (callee : List Term)
  deriving DecidableEq

namespace Frame

/-- What has to come after the sequence that is being read. -/
def expectation : Frame → Expectation
  | definition _ => .endOfDefinition
  | function _ => .endOfFunction
  | callee _ => .endOfCallee
  | arguments _ _ => .endOfApplication

end Frame

/-- An open form together with the terms that stand before it, the nearest one
first. -/
structure Level where
  frame : Frame
  before : List Term
  deriving DecidableEq

/-- What the next word is for. -/
inductive Focus where
  /-- It belongs to the innermost sequence. -/
  | items
  /-- It is the name after the opening word. -/
  | name (opener : Lexeme)
  /-- It tells what the form opened by `opener` with the name `name` is. -/
  | role (opener name : Lexeme)
  deriving DecidableEq

/-- What a reader reads. -/
inductive Extent where
  /-- A sequence, up to a word that closes a form or ends a callee. -/
  | sequence
  /-- One form, up to and with its last word. -/
  | form
  deriving DecidableEq

/-- The state of a reader. -/
structure Cursor where
  /-- The open forms, the innermost one first. -/
  levels : List Level
  /-- The terms read so far in the innermost sequence, the last one first. -/
  siblings : List Term
  focus : Focus
  deriving DecidableEq

namespace Cursor

/-- The cursor at the start of a sequence. -/
def start : Cursor :=
  ⟨[], [], .items⟩

/-- The cursor after the word that opens a definition or a function. -/
def afterOpening (opener : Lexeme) : Cursor :=
  ⟨[], [], .name opener⟩

/-- The cursor after the word that opens an application. -/
def afterCalling (opener : Lexeme) : Cursor :=
  ⟨[⟨.callee opener, []⟩], [], .items⟩

/-- The terms of the innermost sequence, in order. -/
def terms (cursor : Cursor) : List Term :=
  cursor.siblings.reverse

/-- Adds a term to the innermost sequence. -/
def push (cursor : Cursor) (term : Term) : Cursor :=
  { cursor with siblings := term :: cursor.siblings }

/-- Opens a form inside the innermost sequence. -/
def enter (cursor : Cursor) (frame : Frame) : Cursor :=
  ⟨⟨frame, cursor.siblings⟩ :: cursor.levels, [], .items⟩

/-- The cursor after the word that tells what a form is. -/
def resolve (cursor : Cursor) (opener name found : Lexeme) : Except ParseFault Cursor :=
  match Keyword.ofText? found.text with
  | some .naming =>
      if Word.isVariable name.text || Word.isControl name.text then
        .error (.illegalMacroName name)
      else .ok (cursor.enter (.definition name.text))
  | some .binding =>
      if Word.isVariable name.text then .ok (cursor.enter (.function name.text))
      else .error (.illegalParameter name)
  | _ => .error (.unexpected (.role opener.text name.text) found)

/-- The term of a form whose last word has been read, after the sequence `terms`.
A callee cannot be closed before its arguments. -/
def closed (frame : Frame) (terms : List Term) (found : Lexeme) : Except ParseFault Term :=
  match frame with
  | .definition name => .ok (.define name terms)
  | .function param => .ok (.lam param terms)
  | .callee _ => .error (.unexpected .endOfCallee found)
  | .arguments opener callee =>
      match Sequence.collapse? callee with
      | some single => .ok (.app single terms)
      | none => .error (.emptyCallee opener)

/-- The cursor after a closing word inside the form of `level`. -/
def close (cursor : Cursor) (level : Level) (outer : List Level) (found : Lexeme) :
    Except ParseFault Cursor := do
  let term ← closed level.frame cursor.terms found
  return ⟨outer, term :: level.before, .items⟩

/-- The cursor after the word that ends the callee of the form of `level`. -/
def turn (cursor : Cursor) (level : Level) (outer : List Level) (found : Lexeme) :
    Except ParseFault Cursor :=
  match level.frame with
  | .callee opener => .ok ⟨⟨.arguments opener cursor.terms, level.before⟩ :: outer, [], .items⟩
  | other => .error (.unexpected other.expectation found)

/-- Opens a form at a word, unless `capacity` forms are open already. -/
def opened (capacity : Nat) (cursor : Cursor) (opener : Lexeme) (next : Cursor) :
    Except ParseFault Cursor :=
  if cursor.levels.length < capacity then .ok next else .error (.tooDeep opener)

/-- The cursor after a word, or nothing if the word is no part of what is read. -/
def advance (extent : Extent) (capacity : Nat) (cursor : Cursor) (lexeme : Lexeme) :
    Except ParseFault (Option Cursor) :=
  match cursor.focus with
  | .name opener => .ok (some { cursor with focus := .role opener lexeme })
  | .role opener name => some <$> cursor.resolve opener name lexeme
  | .items =>
      match cursor.levels, extent, Keyword.ofText? lexeme.text with
      | [], .form, _ => .ok none
      | _, _, some .opening =>
          some <$> cursor.opened capacity lexeme { cursor with focus := .name lexeme }
      | _, _, some .calling =>
          some <$> cursor.opened capacity lexeme (cursor.enter (.callee lexeme))
      | [], _, some .closing => .ok none
      | level :: outer, _, some .closing => some <$> cursor.close level outer lexeme
      | [], _, some .applying => .ok none
      | level :: outer, _, some .applying => some <$> cursor.turn level outer lexeme
      | _, _, _ => .ok (some (cursor.push (.atom lexeme.text)))

/-- What is still missing when the words end. -/
def unfinished? (cursor : Cursor) : Option Expectation :=
  match cursor.focus, cursor.levels with
  | .name _, _ => some .name
  | .role _ name, _ => some (.role Keyword.opening.spelling name.text)
  | .items, level :: _ => some level.frame.expectation
  | .items, [] => none

/-- Reads words from a cursor on: the terms read and the words left over. -/
def read (extent : Extent) (capacity : Nat) :
    Cursor → List Lexeme → Except ParseFault (List Term × List Lexeme)
  | cursor, [] =>
      match cursor.unfinished? with
      | some expected => .error (.missing expected)
      | none => .ok (cursor.terms, [])
  | cursor, lexeme :: rest =>
      match cursor.advance extent capacity lexeme with
      | .error fault => .error fault
      | .ok none => .ok (cursor.terms, lexeme :: rest)
      | .ok (some next) => read extent capacity next rest

end Cursor

end Splice
