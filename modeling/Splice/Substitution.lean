import Splice.Term.Render

/-!
# Substitution

A parameter is replaced by a sequence, spliced in where the parameter stood. Only
a function with the same parameter shields its body; every other body is entered,
and names of the replacement may be captured. The callee of an application is
one term, so a replacement that is spliced in there collapses into one, and an
empty replacement leaves the callee as it was.
-/

namespace Splice

/-- The callee that an application has once terms are to take the place of
`callee`: the one term that stands for them, or `callee` if there are none. -/
def Term.replacedBy (callee : Term) (terms : List Term) : Term :=
  (Sequence.collapse? terms).getD callee

theorem Term.replacedBy_nil (callee : Term) : callee.replacedBy [] = callee := rfl

theorem Term.replacedBy_singleton (callee single : Term) : callee.replacedBy [single] = single :=
  rfl

mutual

/-- The sequence that a term becomes when `param` is replaced by `args`. -/
def Term.substitute (param : Text) (args : List Term) : Term → List Term
  | .name text => if text = param then args else [.name text]
  | .literal raw => [.literal raw]
  | .lam inner body =>
      if inner = param then [.lam inner body]
      else [.lam inner (Sequence.substitute param args body)]
  | .define name body => [.define name (Sequence.substitute param args body)]
  | .app callee operands =>
      [.app (callee.replacedBy (Term.substitute param args callee))
        (Sequence.substitute param args operands)]

/-- Replaces `param` by `args` throughout a sequence. -/
def Sequence.substitute (param : Text) (args : List Term) : List Term → List Term
  | [] => []
  | head :: tail => Term.substitute param args head ++ Sequence.substitute param args tail

end

/-- The callee that a callee becomes when `param` is replaced by `args`. -/
def Term.substituteCallee (param : Text) (args : List Term) (callee : Term) : Term :=
  callee.replacedBy (Term.substitute param args callee)

theorem Term.substitute_app (param : Text) (args : List Term) (callee : Term)
    (operands : List Term) :
    Term.substitute param args (.app callee operands) =
      [.app (callee.substituteCallee param args) (Sequence.substitute param args operands)] := by
  rw [substitute, substituteCallee]

mutual

/-- Whether a term holds an application of the printing name, at any depth. -/
def Term.mentionsPrint : Term → Bool
  | .name _ => false
  | .literal _ => false
  | .lam _ body => Sequence.mentionsPrint body
  | .define _ body => Sequence.mentionsPrint body
  | .app callee args =>
      callee.name? == some Word.print || Term.mentionsPrint callee || Sequence.mentionsPrint args

/-- Whether a sequence holds an application of the printing name, at any depth. -/
def Sequence.mentionsPrint : List Term → Bool
  | [] => false
  | head :: tail => Term.mentionsPrint head || Sequence.mentionsPrint tail

end

end Splice
