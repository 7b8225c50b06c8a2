import Splice.Term.Basic
import Splice.Text.Escape

/-!
# Terms as text

A sequence is written in three ways. Its source form gives every word as it is;
its trace form writes the blanks inside words as escapes, so that it can be cut
into the same words again; and its output form is what printing it shows, where
literals lose their ends and neighbours touch.

Source and trace form are the same list of words, joined by single spaces; they
differ in how a word is spelled. The parameter of a function is always spelled as
it is.
-/

namespace Splice

mutual

/-- The words of a term, each name and literal spelled by `spell`. -/
def Term.words (spell : Text → Text) : Term → List Text
  | .name text => [spell text]
  | .literal raw => [spell raw]
  | .lam param body =>
      Keyword.opening.spelling :: param :: Keyword.binding.spelling ::
        (Sequence.words spell body ++ [Keyword.closing.spelling])
  | .define name body =>
      Keyword.opening.spelling :: spell name :: Keyword.naming.spelling ::
        (Sequence.words spell body ++ [Keyword.closing.spelling])
  | .app callee args =>
      Keyword.calling.spelling :: (Term.words spell callee ++ Keyword.applying.spelling ::
        (Sequence.words spell args ++ [Keyword.closing.spelling]))

/-- The words of a sequence, each name and literal spelled by `spell`. -/
def Sequence.words (spell : Text → Text) : List Term → List Text
  | [] => []
  | head :: tail => Term.words spell head ++ Sequence.words spell tail

end

/-- The source form of a sequence. -/
def Sequence.source (terms : List Term) : Text :=
  Text.unwords (Sequence.words id terms)

/-- The trace form of a sequence. -/
def Sequence.trace (terms : List Term) : Text :=
  Text.unwords (Sequence.words Text.escape terms)

/-- The source form of a term. -/
def Term.source (term : Term) : Text :=
  Sequence.source [term]

/-- The source form of a sequence with every term on a line of its own. -/
def Sequence.format (terms : List Term) : Text :=
  Text.unlines (terms.map Term.source)

mutual

/-- What printing a term shows. A form keeps its keywords, with single spaces
around them and none for a missing body. -/
def Term.output (hollow : Hollow) : Term → Text
  | .name text => text
  | .literal raw => Word.content hollow raw
  | .lam param body =>
      Text.unwords ([Keyword.opening.spelling, param, Keyword.binding.spelling] ++
        (if body.isEmpty then [] else [Sequence.output hollow body]) ++ [Keyword.closing.spelling])
  | .define name body =>
      Text.unwords ([Keyword.opening.spelling, name, Keyword.naming.spelling] ++
        (if body.isEmpty then [] else [Sequence.output hollow body]) ++ [Keyword.closing.spelling])
  | .app callee args =>
      Text.unwords
        ([Keyword.calling.spelling, Term.output hollow callee, Keyword.applying.spelling] ++
        (if args.isEmpty then [] else [Sequence.output hollow args]) ++ [Keyword.closing.spelling])

/-- What printing a sequence shows: its terms with nothing between them. -/
def Sequence.output (hollow : Hollow) : List Term → Text
  | [] => []
  | head :: tail => Term.output hollow head ++ Sequence.output hollow tail

end

/-- The one term that stands for a sequence in the callee of an application: a
single term for itself, several for a name spelled like their source form. An
empty sequence has none. -/
def Sequence.collapse? : List Term → Option Term
  | [] => none
  | [single] => some single
  | several => some (.name (Sequence.source several))

end Splice
