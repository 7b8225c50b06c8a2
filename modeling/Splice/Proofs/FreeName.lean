import Splice.Proofs.Reduction.Texts
import Splice.Proofs.Substitution

/-!
# Free names under substitution

Where the callee of an application is replaced by several terms they collapse into one name. That
name holds a space, so it is none that could be replaced itself, and neither order of two
substitutions sees more of it than the other. What is left of the callee when nothing replaces it is
the callee itself. So substitutions for two names commute as soon as neither brings in the other's
name, however many terms they bring in and whatever binds the two names on the way.
-/

namespace Splice

/-! ## Callees -/

namespace Term

variable {param : Text} {callee : Term}

theorem substituteCallee_param (param : Text) (args : List Term) :
    substituteCallee param args (.name param) = (Term.name param).replacedBy args := by
  rw [substituteCallee, substitute, if_pos rfl]

theorem substitute_eq_singleton (other : callee ≠ .name param) (args : List Term) :
    Term.substitute param args callee = [callee.substituteCallee param args] := by
  obtain ⟨single, becomes⟩ := exists_substitute_eq other args
  rw [substituteCallee, becomes, replacedBy_singleton]

theorem substituteCallee_eq_self (absent : callee.hasFree param = false) (args : List Term) :
    callee.substituteCallee param args = callee := by
  have alone : Sequence.hasFree param [callee] = false := by
    rw [Sequence.hasFree, Sequence.hasFree, absent, Bool.or_false]
  have kept := Sequence.substitute_eq_self alone args
  rw [Sequence.substitute_singleton] at kept
  rw [substituteCallee, kept, replacedBy_singleton]

/-- A callee that is not the parameter becomes no name that it was not. -/
theorem substituteCallee_ne_name {text : Text} (other : callee ≠ .name param)
    (unlike : callee ≠ .name text) (args : List Term) :
    callee.substituteCallee param args ≠ .name text := by
  intro same
  have becomes := substitute_eq_singleton other args
  rw [same] at becomes
  cases callee with
  | name spelled =>
      have differs : spelled ≠ param := fun alike => other (congrArg Term.name alike)
      rw [substitute, if_neg differs] at becomes
      exact unlike (List.cons.inj becomes).1
  | literal raw =>
      rw [substitute] at becomes
      cases becomes
  | lam inner body =>
      rw [substitute] at becomes
      split at becomes
      · cases becomes
      · cases becomes
  | define name body =>
      rw [substitute] at becomes
      cases becomes
  | app inner operands =>
      rw [substitute] at becomes
      cases becomes

end Term

/-! ## Names that are not free -/

namespace Sequence

theorem hasFree_singleton (name : Text) (term : Term) :
    hasFree name [term] = term.hasFree name := by
  rw [hasFree, hasFree, Bool.or_false]

theorem hasFree_append (name : Text) (front back : List Term) :
    hasFree name (front ++ back) = (hasFree name front || hasFree name back) := by
  induction front with
  | nil => rfl
  | cons head tail ih => rw [List.cons_append, hasFree, hasFree, ih, Bool.or_assoc]

/-- A name without a space is not free in what terms collapse into if it is not free in them. -/
theorem hasFree_collapse {name : Text} (solid : ' ' ∉ name) {terms : List Term} {term : Term}
    (absent : hasFree name terms = false) (collapses : collapse? terms = some term) :
    term.hasFree name = false := by
  rcases terms with _ | ⟨first, _ | ⟨second, rest⟩⟩
  · cases collapses
  · cases collapses
    rwa [hasFree_singleton] at absent
  · cases collapses
    rw [Term.hasFree, decide_eq_false_iff_not]
    intro same
    exact solid (same ▸ space_mem_source first second rest)

/-- Once it is replaced by terms in which it is not free, a name is not free anymore. -/
theorem hasFree_substitute {param : Text} (solid : ' ' ∉ param) {args : List Term}
    (filled : args ≠ []) (absent : hasFree param args = false) (body : List Term) :
    hasFree param (substitute param args body) = false := by
  induction body using Sequence.induction with
  | nil => rfl
  | name text tail ih =>
      rw [substitute, hasFree_append, ih, Bool.or_false, Term.substitute]
      split
      · exact absent
      · rename_i differs
        rwa [hasFree_singleton, Term.hasFree, decide_eq_false_iff_not]
  | literal raw tail ih =>
      rw [substitute, hasFree_append, ih, Bool.or_false, Term.substitute, hasFree_singleton,
        Term.hasFree]
  | lam inner inside tail ofBody ih =>
      rw [substitute, hasFree_append, ih, Bool.or_false, Term.substitute]
      split
      · rename_i shadows
        simp [hasFree_singleton, Term.hasFree, shadows]
      · rw [hasFree_singleton, Term.hasFree, ofBody, Bool.and_false]
  | define name inside tail ofBody ih =>
      rw [substitute, hasFree_append, ih, Bool.or_false, Term.substitute, hasFree_singleton,
        Term.hasFree, ofBody]
  | app callee operands tail ofCallee ofArgs ih =>
      rw [substitute_singleton] at ofCallee
      have slot : (callee.substituteCallee param args).hasFree param = false := by
        by_cases same : callee = .name param
        · obtain ⟨first, rest, rfl⟩ := List.exists_cons_of_ne_nil filled
          rw [same, Term.substituteCallee_param, Term.replacedBy, collapse?_cons,
            Option.getD_some]
          exact hasFree_collapse solid absent (collapse?_cons first rest)
        · rwa [Term.substitute_eq_singleton same, hasFree_singleton] at ofCallee
      rw [substitute, hasFree_append, ih, Bool.or_false, Term.substitute_app, hasFree_singleton,
        Term.hasFree, slot, ofArgs, Bool.or_false]

end Sequence

/-! ## Two names -/

section Two

variable {first second : Text} {args operands : List Term}

/-- What replaces one name in the place of a callee holds another name no more than before. -/
theorem Term.hasFree_substituteCallee_param {name param : Text} (differ : param ≠ name)
    (solid : ' ' ∉ name) (absent : Sequence.hasFree name args = false) :
    (Term.substituteCallee param args (.name param)).hasFree name = false := by
  rw [substituteCallee_param, replacedBy]
  cases collapses : Sequence.collapse? args with
  | none => rwa [Option.getD_none, hasFree, decide_eq_false_iff_not]
  | some single => exact Sequence.hasFree_collapse solid absent collapses

theorem Term.substituteCallee_comm_param {callee : Term} (same : callee = .name first)
    (differ : first ≠ second) (solid : ' ' ∉ second)
    (absent : Sequence.hasFree second args = false) :
    (callee.substituteCallee second operands).substituteCallee first args =
      (callee.substituteCallee first args).substituteCallee second operands := by
  have apart : callee.hasFree second = false := by
    rwa [same, hasFree, decide_eq_false_iff_not]
  have replaced : (callee.substituteCallee first args).hasFree second = false := by
    rw [same]
    exact hasFree_substituteCallee_param differ solid absent
  rw [substituteCallee_eq_self apart, substituteCallee_eq_self replaced]

theorem Term.substituteCallee_comm (differ : first ≠ second) (solidFirst : ' ' ∉ first)
    (solidSecond : ' ' ∉ second) (absentFirst : Sequence.hasFree first operands = false)
    (absentSecond : Sequence.hasFree second args = false) {callee : Term}
    (alone : Sequence.substitute first args (Term.substitute second operands callee) =
      Sequence.substitute second operands (Term.substitute first args callee)) :
    (callee.substituteCallee second operands).substituteCallee first args =
      (callee.substituteCallee first args).substituteCallee second operands := by
  by_cases isFirst : callee = .name first
  · exact substituteCallee_comm_param isFirst differ solidSecond absentSecond
  by_cases isSecond : callee = .name second
  · exact (substituteCallee_comm_param isSecond differ.symm solidFirst absentFirst).symm
  -- A callee that is neither name stays one term, whichever substitution comes first.
  have keepsFirst := substituteCallee_ne_name isSecond isFirst operands
  have keepsSecond := substituteCallee_ne_name isFirst isSecond args
  rw [substitute_eq_singleton isFirst, substitute_eq_singleton isSecond,
    Sequence.substitute_singleton, Sequence.substitute_singleton,
    substitute_eq_singleton keepsFirst, substitute_eq_singleton keepsSecond] at alone
  exact List.cons.inj alone |>.1

/-- Substitutions for two names without spaces commute if neither name is free in what replaces the
other. -/
theorem Sequence.substitute_comm (differ : first ≠ second) (solidFirst : ' ' ∉ first)
    (solidSecond : ' ' ∉ second) (absentFirst : Sequence.hasFree first operands = false)
    (absentSecond : Sequence.hasFree second args = false) (body : List Term) :
    Sequence.substitute first args (Sequence.substitute second operands body) =
      Sequence.substitute second operands (Sequence.substitute first args body) := by
  have cons {head : Term} {tail : List Term}
      (ofHead : Sequence.substitute first args (Term.substitute second operands head) =
        Sequence.substitute second operands (Term.substitute first args head))
      (ofTail : Sequence.substitute first args (Sequence.substitute second operands tail) =
        Sequence.substitute second operands (Sequence.substitute first args tail)) :
      Sequence.substitute first args (Sequence.substitute second operands (head :: tail)) =
        Sequence.substitute second operands (Sequence.substitute first args (head :: tail)) := by
    rw [substitute, substitute, substitute_append, substitute_append, ofHead, ofTail]
  induction body using Sequence.induction with
  | nil => rfl
  | name text tail ih =>
      refine cons ?_ ih
      by_cases isFirst : text = first
      · have apart : text ≠ second := isFirst ▸ differ
        rw [Term.substitute, if_neg apart, substitute_singleton, Term.substitute, if_pos isFirst,
          substitute_eq_self absentSecond]
      by_cases isSecond : text = second
      · rw [Term.substitute, if_pos isSecond, Term.substitute, if_neg isFirst,
          substitute_singleton, Term.substitute, if_pos isSecond, substitute_eq_self absentFirst]
      · simp only [Term.substitute, if_neg isFirst, if_neg isSecond, substitute_singleton]
  | literal raw tail ih =>
      refine cons ?_ ih
      simp only [Term.substitute, substitute_singleton]
  | lam inner inside tail ofBody ih =>
      refine cons ?_ ih
      -- A binder of one name shields its body from that substitution in either order.
      by_cases isFirst : inner = first
      · have apart : inner ≠ second := isFirst ▸ differ
        simp only [Term.substitute, if_pos isFirst, if_neg apart, substitute_singleton]
      by_cases isSecond : inner = second
      · simp only [Term.substitute, if_neg isFirst, if_pos isSecond, substitute_singleton]
      · simp only [Term.substitute, if_neg isFirst, if_neg isSecond, substitute_singleton, ofBody]
  | define name inside tail ofBody ih =>
      refine cons ?_ ih
      simp only [Term.substitute, substitute_singleton, ofBody]
  | app callee arguments tail ofCallee ofArgs ih =>
      refine cons ?_ ih
      rw [substitute_singleton, substitute_singleton] at ofCallee
      simp only [Term.substitute_app, substitute_singleton, ofArgs,
        Term.substituteCallee_comm differ solidFirst solidSecond absentFirst absentSecond ofCallee]

end Two

/-- Nothing replaces `x`, and two terms replace `y`, one of which binds `x`; both names stand in
callees and under functions that bind them. -/
theorem Sequence.substitute_comm_in_callees :
    let operands : List Term := [.lam "x".toList [.name "x".toList], .name "p".toList]
    let body : List Term :=
      [.app (.name "y".toList) [.name "x".toList, .lam "x".toList [.name "y".toList]],
        .define "M".toList [.app (.name "x".toList) [.lam "y".toList [.name "x".toList]]]]
    (Sequence.hasFree "x".toList operands = false ∧ Sequence.hasFree "y".toList [] = false) ∧
    Sequence.substitute "x".toList [] (Sequence.substitute "y".toList operands body) =
      Sequence.substitute "y".toList operands (Sequence.substitute "x".toList [] body) ∧
    Sequence.substitute "y".toList operands (Sequence.substitute "x".toList [] body) =
      [.app (.name "poop x poops x qooq p".toList) [.lam "x".toList operands],
        .define "M".toList [.app (.name "x".toList) [.lam "y".toList []]]] := by
  intro operands body
  have absent : Sequence.hasFree "x".toList operands = false := by decide
  refine ⟨⟨absent, rfl⟩, ?_, by decide⟩
  exact Sequence.substitute_comm (by decide) (by decide) (by decide) absent rfl body

end Splice
