import Splice.Term.Render

/-!
# Texts in their places

Every text that a term holds stands in one of four places. A property that all keywords have
holds of the words of a sequence exactly when it holds of the texts that occur in it.
-/

namespace Splice

/-- The places where a text stands in a term. -/
inductive Role where
  | name
  | literal
  | param
  | definition
  deriving DecidableEq

/-- A property that a name has when it holds a space. -/
def AdmitsSpaced (holds : Role → Text → Prop) : Prop :=
  ∀ text, ' ' ∈ text → holds .name text

mutual

/-- The texts that occur in a term, each with its place. -/
def Term.occurrences : Term → List (Role × Text)
  | .name text => [(.name, text)]
  | .literal raw => [(.literal, raw)]
  | .lam param body => (.param, param) :: Sequence.occurrences body
  | .define name body => (.definition, name) :: Sequence.occurrences body
  | .app callee args => Term.occurrences callee ++ Sequence.occurrences args

/-- The texts that occur in a sequence, each with its place. -/
def Sequence.occurrences : List Term → List (Role × Text)
  | [] => []
  | head :: tail => Term.occurrences head ++ Sequence.occurrences tail

end

mutual

/-- How many functions, definitions and applications are nested in each other. -/
def Term.nesting : Term → Nat
  | .name _ => 0
  | .literal _ => 0
  | .lam _ body => Sequence.nesting body + 1
  | .define _ body => Sequence.nesting body + 1
  | .app callee args => max (Term.nesting callee) (Sequence.nesting args) + 1

/-- How many functions, definitions and applications are nested in each other in a sequence. -/
def Sequence.nesting : List Term → Nat
  | [] => 0
  | head :: tail => max (Term.nesting head) (Sequence.nesting tail)

end

namespace Sequence

/-- Whether every text that occurs in a sequence has a property of texts in their places. -/
def Every (holds : Role → Text → Prop) (terms : List Term) : Prop :=
  ∀ role text, (role, text) ∈ occurrences terms → holds role text

section Every

variable {holds : Role → Text → Prop}

@[simp]
theorem every_nil : Every holds [] := by
  intro role text member
  cases member

@[simp]
theorem every_name (text : Text) (tail : List Term) :
    Every holds (.name text :: tail) ↔ holds .name text ∧ Every holds tail := by
  simp [Every, occurrences, Term.occurrences, or_imp, forall_and]

@[simp]
theorem every_literal (raw : Text) (tail : List Term) :
    Every holds (.literal raw :: tail) ↔ holds .literal raw ∧ Every holds tail := by
  simp [Every, occurrences, Term.occurrences, or_imp, forall_and]

@[simp]
theorem every_lam (param : Text) (body tail : List Term) :
    Every holds (.lam param body :: tail) ↔
      holds .param param ∧ Every holds body ∧ Every holds tail := by
  simp [Every, occurrences, Term.occurrences, or_imp, forall_and]

@[simp]
theorem every_define (name : Text) (body tail : List Term) :
    Every holds (.define name body :: tail) ↔
      holds .definition name ∧ Every holds body ∧ Every holds tail := by
  simp [Every, occurrences, Term.occurrences, or_imp, forall_and]

@[simp]
theorem every_app (callee : Term) (args tail : List Term) :
    Every holds (.app callee args :: tail) ↔
      Every holds [callee] ∧ Every holds args ∧ Every holds tail := by
  simp [Every, occurrences, Term.occurrences, or_imp, forall_and]

theorem every_append (front back : List Term) :
    Every holds (front ++ back) ↔ Every holds front ∧ Every holds back := by
  have split : occurrences (front ++ back) = occurrences front ++ occurrences back := by
    induction front with
    | nil => rfl
    | cons head tail ih => rw [List.cons_append, occurrences, occurrences, ih, List.append_assoc]
  simp only [Every, split, List.mem_append, or_imp, forall_and]

end Every

/-- A property that keywords have holds of all words exactly when it holds of all texts. -/
theorem forall_mem_words_iff {holds : Text → Prop}
    (keywords : ∀ keyword : Keyword, holds keyword.spelling) (terms : List Term) :
    (∀ word ∈ words id terms, holds word) ↔ Every (fun _ text => holds text) terms := by
  induction terms using Sequence.induction with
  | nil => simp [words]
  | name text tail ih => simp [words, Term.words, ih, or_imp, forall_and]
  | literal raw tail ih => simp [words, Term.words, ih, or_imp, forall_and]
  | lam param body tail ofBody ih =>
      simp [words, Term.words, ofBody, ih, keywords, or_imp, forall_and]
  | define name body tail ofBody ih =>
      simp [words, Term.words, ofBody, ih, keywords, or_imp, forall_and]
  | app callee args tail ofCallee ofArgs ih =>
      simp only [words, List.append_nil] at ofCallee
      simp [words, Term.words, ofCallee, ofArgs, ih, keywords, or_imp, forall_and]

end Sequence

end Splice
