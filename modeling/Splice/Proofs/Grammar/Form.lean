import Splice.Term.Render

/-!
# Forms as they are written

A phrase is a sequence of words and forms as they stand in a program, before the callees of
several terms are collapsed. It has the words that spell it and the terms that it stands for.
Its callees are not empty, by construction; the other rules of the grammar are said by `Legal`
and `nesting`.
-/

namespace Splice

namespace Keyword

/-- The words that open, divide or close a form wherever they stand. -/
def structural : List Text :=
  [opening.spelling, calling.spelling, closing.spelling, applying.spelling]

@[simp]
theorem ofText?_spelling (keyword : Keyword) : ofText? keyword.spelling = some keyword := by
  cases keyword <;> decide

theorem spelling_of_ofText? {text : Text} {keyword : Keyword}
    (found : ofText? text = some keyword) : text = keyword.spelling := by
  have same := List.find?_some found
  exact (of_decide_eq_true same).symm

end Keyword

/-- A word or a form of a program. -/
inductive Form where
  | word (text : Text)
  | definition (name : Text) (body : List Form)
  | function (param : Text) (body : List Form)
  | application (first : Form) (others args : List Form)

/-- Words and forms that stand side by side. -/
abbrev Phrase := List Form

/-- Induction over phrases and the phrases inside their forms. -/
@[elab_as_elim]
theorem Phrase.induction {motive : List Form → Prop} (nil : motive [])
    (word : ∀ text tail, motive tail → motive (.word text :: tail))
    (definition : ∀ name body tail, motive body → motive tail →
      motive (.definition name body :: tail))
    (function : ∀ param body tail, motive body → motive tail →
      motive (.function param body :: tail))
    (application : ∀ first others args tail, motive (first :: others) → motive args →
      motive tail → motive (.application first others args :: tail))
    (phrase : List Form) : motive phrase :=
  @Form.rec_1 (fun form => ∀ tail, motive tail → motive (form :: tail)) motive
    word
    (fun name body ofBody tail => definition name body tail ofBody)
    (fun param body ofBody tail => function param body tail ofBody)
    (fun first others args ofFirst ofOthers ofArgs tail =>
      application first others args tail (ofFirst others ofOthers) ofArgs)
    nil (fun _ tail ofHead => ofHead tail) phrase

mutual

/-- The words of a form. -/
def Form.words : Form → List Text
  | .word text => [text]
  | .definition name body =>
      Keyword.opening.spelling :: name :: Keyword.naming.spelling ::
        (Phrase.words body ++ [Keyword.closing.spelling])
  | .function param body =>
      Keyword.opening.spelling :: param :: Keyword.binding.spelling ::
        (Phrase.words body ++ [Keyword.closing.spelling])
  | .application first others args =>
      Keyword.calling.spelling :: (Form.words first ++ Phrase.words others ++
        Keyword.applying.spelling :: (Phrase.words args ++ [Keyword.closing.spelling]))

/-- The words of a phrase. -/
def Phrase.words : List Form → List Text
  | [] => []
  | head :: tail => Form.words head ++ Phrase.words tail

end

namespace Phrase

/-- Words that do not go on with a phrase: there are none, or the first closes a form or ends a
callee. -/
def Ends (words : List Text) : Prop :=
  ∀ stop ∈ words.head?, stop = Keyword.closing.spelling ∨ stop = Keyword.applying.spelling

theorem ends_nil : Ends [] := nofun

theorem ends_cons {stop : Text} {later : List Text} :
    Ends (stop :: later) ↔ stop = Keyword.closing.spelling ∨ stop = Keyword.applying.spelling := by
  simp [Ends]

end Phrase

/-- The callee that terms stand for. -/
def Term.collapse (first : Term) : List Term → Term
  | [] => first
  | others => .name (Sequence.source (first :: others))

theorem Sequence.collapse?_cons (first : Term) (others : List Term) :
    Sequence.collapse? (first :: others) = some (first.collapse others) := by
  cases others <;> rfl

mutual

/-- The term that a form stands for. -/
def Form.term : Form → Term
  | .word text => .atom text
  | .definition name body => .define name (Phrase.terms body)
  | .function param body => .lam param (Phrase.terms body)
  | .application first others args =>
      .app ((Form.term first).collapse (Phrase.terms others)) (Phrase.terms args)

/-- The terms that a phrase stands for. -/
def Phrase.terms : List Form → List Term
  | [] => []
  | head :: tail => Form.term head :: Phrase.terms tail

end

mutual

/-- Whether the words of a form are legal in their places. -/
def Form.Legal : Form → Prop
  | .word text => text ∉ Keyword.structural
  | .definition name body =>
      Word.isVariable name = false ∧ Word.isControl name = false ∧ Phrase.Legal body
  | .function param body => Word.isVariable param = true ∧ Phrase.Legal body
  | .application first others args =>
      Form.Legal first ∧ Phrase.Legal others ∧ Phrase.Legal args

/-- Whether the words of a phrase are legal in their places. -/
def Phrase.Legal : List Form → Prop
  | [] => True
  | head :: tail => Form.Legal head ∧ Phrase.Legal tail

end

mutual

/-- How many forms are nested in each other, the form itself included. -/
def Form.nesting : Form → Nat
  | .word _ => 0
  | .definition _ body => Phrase.nesting body + 1
  | .function _ body => Phrase.nesting body + 1
  | .application first others args =>
      max (max (Form.nesting first) (Phrase.nesting others)) (Phrase.nesting args) + 1

/-- How many forms are nested in each other in a phrase. -/
def Phrase.nesting : List Form → Nat
  | [] => 0
  | head :: tail => max (Form.nesting head) (Phrase.nesting tail)

end

/-! ## Spelling -/

/-- A phrase is spelled by words: it is legal, has these words, and nests at most `room` forms. -/
structure Phrase.Spells (phrase : List Form) (room : Nat) (spelled : List Text) : Prop where
  legal : Phrase.Legal phrase
  words : Phrase.words phrase = spelled
  fits : Phrase.nesting phrase ≤ room

namespace Phrase.Spells

variable {body tail : List Form} {room : Nat} {inside later : List Text}

theorem nil : Phrase.Spells [] room [] :=
  ⟨True.intro, rfl, Nat.zero_le room⟩

theorem word {text : Text} (plain : text ∉ Keyword.structural)
    (ofTail : Phrase.Spells tail room later) :
    Phrase.Spells (.word text :: tail) room (text :: later) := by
  refine ⟨⟨plain, ofTail.legal⟩, congrArg (text :: ·) ofTail.words, ?_⟩
  exact Nat.max_le.mpr ⟨Nat.zero_le room, ofTail.fits⟩

theorem definition {name : Text} (free : Word.isVariable name = false)
    (solid : Word.isControl name = false) (ofBody : Phrase.Spells body room inside)
    (ofTail : Phrase.Spells tail (room + 1) later) :
    Phrase.Spells (.definition name body :: tail) (room + 1)
      (Keyword.opening.spelling :: name :: Keyword.naming.spelling ::
        (inside ++ Keyword.closing.spelling :: later)) := by
  refine ⟨⟨⟨free, solid, ofBody.legal⟩, ofTail.legal⟩, ?_, ?_⟩
  · simp [Phrase.words, Form.words, ofBody.words, ofTail.words]
  · exact Nat.max_le.mpr ⟨Nat.succ_le_succ ofBody.fits, ofTail.fits⟩

theorem function {param : Text} (bindable : Word.isVariable param = true)
    (ofBody : Phrase.Spells body room inside)
    (ofTail : Phrase.Spells tail (room + 1) later) :
    Phrase.Spells (.function param body :: tail) (room + 1)
      (Keyword.opening.spelling :: param :: Keyword.binding.spelling ::
        (inside ++ Keyword.closing.spelling :: later)) := by
  refine ⟨⟨⟨bindable, ofBody.legal⟩, ofTail.legal⟩, ?_, ?_⟩
  · simp [Phrase.words, Form.words, ofBody.words, ofTail.words]
  · exact Nat.max_le.mpr ⟨Nat.succ_le_succ ofBody.fits, ofTail.fits⟩

theorem application {first : Form} {others args : List Form} {operands : List Text}
    (ofCallee : Phrase.Spells (first :: others) room inside)
    (ofArgs : Phrase.Spells args room operands)
    (ofTail : Phrase.Spells tail (room + 1) later) :
    Phrase.Spells (.application first others args :: tail) (room + 1)
      (Keyword.calling.spelling :: (inside ++ Keyword.applying.spelling ::
        (operands ++ Keyword.closing.spelling :: later))) := by
  refine ⟨⟨⟨ofCallee.legal.1, ofCallee.legal.2, ofArgs.legal⟩, ofTail.legal⟩, ?_, ?_⟩
  · simp [Phrase.words, Form.words, ← ofCallee.words, ofArgs.words, ofTail.words]
  · have parts := Nat.max_le.mpr ⟨ofCallee.fits, ofArgs.fits⟩
    exact Nat.max_le.mpr ⟨Nat.succ_le_succ parts, ofTail.fits⟩

end Phrase.Spells

end Splice
