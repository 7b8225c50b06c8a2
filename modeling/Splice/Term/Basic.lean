import Splice.Word

/-!
# Terms

A program is a sequence of terms: names, literals, functions of one parameter,
macro definitions, and applications. Bodies and arguments are sequences again,
whereas the callee of an application is a single term.
-/

namespace Splice

/-- The terms of a program. -/
inductive Term where
  /-- A bare name, looked up among the macros when it is reached. -/
  | name (text : Text)
  /-- The text of a literal with both of its ends; it stays as it is. -/
  | literal (raw : Text)
  /-- A function of one parameter. -/
  | lam (param : Text) (body : List Term)
  /-- The definition of a macro. -/
  | define (name : Text) (body : List Term)
  /-- A callee applied to a sequence of arguments. -/
  | app (callee : Term) (args : List Term)

/-- A sequence of terms that stand side by side. -/
abbrev Sequence := List Term

mutual

/-- Decides whether two terms are equal. -/
def Term.decEq : (left right : Term) → Decidable (left = right)
  | .name text, .name other => decidable_of_iff (text = other) (by simp)
  | .literal raw, .literal other => decidable_of_iff (raw = other) (by simp)
  | .lam param body, .lam other tail =>
      match decEq param other, Sequence.decEq body tail with
      | isTrue same, isTrue alike => isTrue (by rw [same, alike])
      | isFalse differ, _ => isFalse (by simp [differ])
      | _, isFalse differ => isFalse (by simp [differ])
  | .define name body, .define other tail =>
      match decEq name other, Sequence.decEq body tail with
      | isTrue same, isTrue alike => isTrue (by rw [same, alike])
      | isFalse differ, _ => isFalse (by simp [differ])
      | _, isFalse differ => isFalse (by simp [differ])
  | .app callee args, .app other tail =>
      match Term.decEq callee other, Sequence.decEq args tail with
      | isTrue same, isTrue alike => isTrue (by rw [same, alike])
      | isFalse differ, _ => isFalse (by simp [differ])
      | _, isFalse differ => isFalse (by simp [differ])
  | .name _, .literal _ | .name _, .lam _ _ | .name _, .define _ _ | .name _, .app _ _
  | .literal _, .name _ | .literal _, .lam _ _ | .literal _, .define _ _ | .literal _, .app _ _
  | .lam _ _, .name _ | .lam _ _, .literal _ | .lam _ _, .define _ _ | .lam _ _, .app _ _
  | .define _ _, .name _ | .define _ _, .literal _ | .define _ _, .lam _ _ | .define _ _, .app _ _
  | .app _ _, .name _ | .app _ _, .literal _ | .app _ _, .lam _ _ | .app _ _, .define _ _ =>
      isFalse (by simp)

/-- Decides whether two sequences are equal. -/
def Sequence.decEq : (left right : List Term) → Decidable (left = right)
  | [], [] => isTrue rfl
  | [], _ :: _ => isFalse (by simp)
  | _ :: _, [] => isFalse (by simp)
  | head :: tail, other :: rest =>
      match Term.decEq head other, Sequence.decEq tail rest with
      | isTrue same, isTrue alike => isTrue (by rw [same, alike])
      | isFalse differ, _ => isFalse (by simp [differ])
      | _, isFalse differ => isFalse (by simp [differ])

end

instance : DecidableEq Term := Term.decEq

/-- Induction over sequences and the sequences inside their terms. A callee counts
as the sequence of that one term. -/
@[elab_as_elim]
theorem Sequence.induction {motive : List Term → Prop} (nil : motive [])
    (name : ∀ text tail, motive tail → motive (.name text :: tail))
    (literal : ∀ raw tail, motive tail → motive (.literal raw :: tail))
    (lam : ∀ param body tail, motive body → motive tail → motive (.lam param body :: tail))
    (define : ∀ name body tail, motive body → motive tail → motive (.define name body :: tail))
    (app : ∀ callee args tail, motive [callee] → motive args → motive tail →
      motive (.app callee args :: tail))
    (terms : List Term) : motive terms :=
  @Term.rec_1 (fun term => ∀ tail, motive tail → motive (term :: tail)) motive
    name literal
    (fun param body ofBody tail => lam param body tail ofBody)
    (fun text body ofBody tail => define text body tail ofBody)
    (fun callee args ofCallee ofArgs tail => app callee args tail (ofCallee [] nil) ofArgs)
    nil (fun _ tail ofHead => ofHead tail) terms

namespace Term

/-- The term that a word stands for when it is no part of a form. -/
def atom (text : Text) : Term :=
  if Word.isLiteral text then literal text else name text

/-- The text of a bare name. -/
def name? : Term → Option Text
  | name text => some text
  | _ => none

/-- What a term is called in an overview. -/
def kind : Term → Text
  | name _ => "token".toList
  | literal _ => "literal".toList
  | lam _ _ => "func".toList
  | define _ _ => "macro definition".toList
  | app _ _ => "application".toList

end Term

end Splice
