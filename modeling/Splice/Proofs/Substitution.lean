import Splice.Proofs.Reduction.OneRedex

/-!
# Names under substitution

Substitution replaces the free occurrences of a parameter, those that are not in a function with
the same parameter. A body without one stays as it is. Other names stay where they are: the context
around one is substituted, and the name is in its hole.
-/

namespace Splice

/-! ## Free names -/

mutual

/-- Whether a name stands somewhere in a term without being the parameter of a function around
it. -/
def Term.hasFree (name : Text) : Term → Bool
  | .name text => text = name
  | .literal _ => false
  | .lam param body => param ≠ name && Sequence.hasFree name body
  | .define _ body => Sequence.hasFree name body
  | .app callee args => Term.hasFree name callee || Sequence.hasFree name args

/-- Whether a name stands somewhere in a sequence without being the parameter of a function around
it. -/
def Sequence.hasFree (name : Text) : List Term → Bool
  | [] => false
  | head :: tail => Term.hasFree name head || Sequence.hasFree name tail

end

theorem Sequence.substitute_singleton (param : Text) (args : List Term) (term : Term) :
    Sequence.substitute param args [term] = Term.substitute param args term := by
  rw [substitute, substitute, List.append_nil]

/-- Nothing is substituted for a parameter that is not free. -/
theorem Sequence.substitute_eq_self {param : Text} {body : List Term}
    (absent : Sequence.hasFree param body = false) (args : List Term) :
    Sequence.substitute param args body = body := by
  induction body using Sequence.induction with
  | nil => rw [substitute]
  | name text tail ih =>
      simp only [hasFree, Term.hasFree, Bool.or_eq_false_iff, decide_eq_false_iff_not] at absent
      rw [substitute, Term.substitute, if_neg absent.1, ih absent.2]
      rfl
  | literal raw tail ih =>
      simp only [hasFree, Term.hasFree, Bool.false_or] at absent
      rw [substitute, Term.substitute, ih absent]
      rfl
  | lam inner inside tail ofBody ih =>
      simp only [hasFree, Term.hasFree, Bool.or_eq_false_iff] at absent
      rw [substitute, Term.substitute, ih absent.2]
      by_cases shadowed : inner = param
      · rw [if_pos shadowed]
        rfl
      · have inBody : hasFree param inside = false := by simpa [shadowed] using absent.1
        rw [if_neg shadowed, ofBody inBody]
        rfl
  | define name inside tail ofBody ih =>
      simp only [hasFree, Term.hasFree, Bool.or_eq_false_iff] at absent
      rw [substitute, Term.substitute, ofBody absent.1, ih absent.2]
      rfl
  | app callee operands tail ofCallee ofArgs ih =>
      simp only [hasFree, Term.hasFree, Bool.or_eq_false_iff, Bool.or_false] at absent ofCallee
      rw [substitute_singleton] at ofCallee
      rw [substitute, Term.substitute, ofCallee absent.1.1, ofArgs absent.1.2, ih absent.2]
      rfl

/-! ## Other names -/

/-- A context with a parameter replaced by arguments around its hole. -/
def Context.substitute (param : Text) (args : List Term) : Context → Context
  | hole => hole
  | beside front inner back =>
      beside (Sequence.substitute param args front) (inner.substitute param args)
        (Sequence.substitute param args back)
  | inBody binder inner =>
      if binder = param then inBody binder inner else inBody binder (inner.substitute param args)
  | inCallee inner operands =>
      inCallee (inner.substitute param args) (Sequence.substitute param args operands)
  | inArgs callee inner =>
      inArgs (callee.substituteCallee param args) (inner.substitute param args)

theorem Sequence.substitute_append (param : Text) (args front back : List Term) :
    Sequence.substitute param args (front ++ back) =
      Sequence.substitute param args front ++ Sequence.substitute param args back := by
  induction front with
  | nil => rw [substitute, List.nil_append, List.nil_append]
  | cons head tail ih =>
      rw [List.cons_append, substitute, substitute, ih, List.append_assoc]

theorem Context.fill?_ne_nil {context : Context} {term : Term} {terms : List Term}
    (filled : context.fill? [term] = some terms) : terms ≠ [] := by
  induction context generalizing terms with
  | hole =>
      cases filled
      simp
  | beside front inner back ih =>
      obtain ⟨middle, inside, rfl⟩ := Option.map_eq_some_iff.mp filled
      simp [ih inside]
  | inBody binder inner ih =>
      obtain ⟨body, -, rfl⟩ := Option.map_eq_some_iff.mp filled
      simp
  | inCallee inner operands ih =>
      unfold fill? at filled
      split at filled
      · cases filled
        simp
      · cases filled
  | inArgs callee inner ih =>
      obtain ⟨operands, -, rfl⟩ := Option.map_eq_some_iff.mp filled
      simp

/-- A context that comes to a single name with a name in its hole has nothing around the hole. -/
theorem Context.eq_of_fill?_name {context : Context} {text other : Text}
    (filled : context.fill? [.name text] = some [.name other]) : other = text := by
  induction context with
  | hole =>
      cases filled
      rfl
  | beside front inner back ih =>
      obtain ⟨middle, inside, same⟩ := Option.map_eq_some_iff.mp filled
      obtain ⟨first, rest, rfl⟩ := List.exists_cons_of_ne_nil (fill?_ne_nil inside)
      cases front with
      | nil =>
          obtain ⟨rfl, rfl, rfl⟩ : first = .name other ∧ rest = [] ∧ back = [] := by
            simpa using same
          exact ih inside
      | cons head tail => simp at same
  | inBody binder inner ih =>
      obtain ⟨body, -, same⟩ := Option.map_eq_some_iff.mp filled
      cases same
  | inCallee inner operands ih =>
      unfold fill? at filled
      split at filled
      · cases filled
      · cases filled
  | inArgs callee inner ih =>
      obtain ⟨operands, -, same⟩ := Option.map_eq_some_iff.mp filled
      cases same

theorem Term.exists_substitute_eq {term : Term} {param : Text}
    (other : term ≠ .name param) (args : List Term) :
    ∃ single, Term.substitute param args term = [single] := by
  cases term with
  | name text =>
      have differs : text ≠ param := fun same => other (congrArg Term.name same)
      exact ⟨.name text, by rw [Term.substitute, if_neg differs]⟩
  | literal raw => exact ⟨.literal raw, by rw [Term.substitute]⟩
  | lam inner body =>
      rw [Term.substitute]
      split
      · exact ⟨_, rfl⟩
      · exact ⟨_, rfl⟩
  | define name body => exact ⟨_, by rw [Term.substitute]⟩
  | app callee operands => exact ⟨_, by rw [Term.substitute]⟩

/-- A name that is not the parameter stays in its place. -/
theorem Context.fill?_substitute {context : Context} {text param : Text} {terms : List Term}
    (other : text ≠ param) (filled : context.fill? [.name text] = some terms)
    (args : List Term) :
    (context.substitute param args).fill? [.name text] =
      some (Sequence.substitute param args terms) := by
  induction context generalizing terms with
  | hole =>
      cases filled
      rw [Sequence.substitute_singleton, Term.substitute, if_neg other]
      rfl
  | beside front inner back ih =>
      obtain ⟨middle, inside, rfl⟩ := Option.map_eq_some_iff.mp filled
      rw [substitute, fill?, ih inside, Option.map_some, Sequence.substitute_append,
        Sequence.substitute_append]
  | inBody binder inner ih =>
      obtain ⟨body, inside, rfl⟩ := Option.map_eq_some_iff.mp filled
      rw [substitute, Sequence.substitute_singleton, Term.substitute]
      split
      · rw [fill?, inside, Option.map_some]
      · rw [fill?, ih inside, Option.map_some]
  | inCallee inner operands ih =>
      unfold fill? at filled
      split at filled
      · rename_i callee inside
        cases filled
        -- Only the parameter itself could become more or less than one term.
        have unlike : callee ≠ .name param := by
          rintro rfl
          exact other (eq_of_fill?_name inside).symm
        obtain ⟨single, becomes⟩ := Term.exists_substitute_eq unlike args
        have deeper := ih inside
        rw [Sequence.substitute_singleton, becomes] at deeper
        rw [substitute, fill?, deeper, Sequence.substitute_singleton, Term.substitute, becomes,
          Term.replacedBy_singleton]
      · cases filled
  | inArgs callee inner ih =>
      obtain ⟨operands, inside, rfl⟩ := Option.map_eq_some_iff.mp filled
      rw [substitute, fill?, ih inside, Option.map_some, Sequence.substitute_singleton,
        Term.substitute_app]

end Splice
