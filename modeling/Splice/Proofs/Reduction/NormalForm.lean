import Splice.Proofs.Reduction.Stuck
import Splice.Proofs.Session.Step

/-!
# Normal forms

A program in normal form is one that a step leaves alone. Which programs these are is said here
without a step: by the shape of the terms and by the macros. Only the body of a function needs
more than a look at its parts, because there every macro is to be expanded that can be. `sites`
lists the places where one can.
-/

namespace Splice

/-- A place where the name of a macro stands, with that name. -/
structure Site where
  context : Context
  name : Text

mutual

/-- The places where a macro can be expanded in a term, from left to right. A term that stands
`alone`, as the callee of an application does, can only become a single term. Definitions are not
entered. -/
def Term.sites (macros : MacroTable) (alone : Bool) : Term → List Site
  | .name text =>
      match macros.find? text with
      | some body => if alone = true → body.length = 1 then [⟨.hole, text⟩] else []
      | none => []
  | .literal _ => []
  | .lam param body =>
      (Sequence.sites macros body).map
        fun site => { site with context := .inBody param site.context }
  | .define _ _ => []
  | .app callee args =>
      (Term.sites macros true callee).map
          (fun site => { site with context := .inCallee site.context args }) ++
        (Sequence.sites macros args).map
          fun site => { site with context := .inArgs callee site.context }

/-- The places where a macro can be expanded in a sequence, from left to right. -/
def Sequence.sites (macros : MacroTable) : List Term → List Site
  | [] => []
  | head :: tail =>
      (Term.sites macros false head).map
          (fun site => { site with context := .beside [] site.context tail }) ++
        (Sequence.sites macros tail).map
          fun site => { site with context := .beside [head] site.context [] }

end

/-- Whether a term is a name or a literal. -/
def Term.isAtom : Term → Bool
  | .name _ => true
  | .literal _ => true
  | .lam _ _ => false
  | .define _ _ => false
  | .app _ _ => false

/-- The terms in normal form. There is no definition among them. -/
inductive Term.Normal (macros : MacroTable) : Term → Prop where
  | name {text : Text} (silent : text ≠ Word.input) (unknown : macros.contains text = false) :
      Term.Normal macros (.name text)
  | literal (raw : Text) : Term.Normal macros (.literal raw)
  | lam (param : Text) {body : List Term} (expanded : Sequence.sites macros body = []) :
      Term.Normal macros (.lam param body)
  | app {callee : Term} {args : List Term} (settled : Term.Normal macros callee)
      (unready : ∀ param body, callee ≠ .lam param body)
      (given : ∀ arg ∈ args, Term.Normal macros arg)
      (unprintable : ¬ (callee = .name Word.print ∧ ∀ arg ∈ args, arg.isAtom = true)) :
      Term.Normal macros (.app callee args)

/-! ## Expanded bodies -/

section Sites

variable {macros : MacroTable}

theorem Term.expand?_app_eq_none_iff (callee : Term) (args : List Term) :
    Term.expand? macros (.app callee args) = none ↔
      (∀ single, Term.expand? macros callee ≠ some [single]) ∧
        Sequence.expand? macros args = none := by
  rw [Term.expand?]
  split
  · rename_i single expands
    simp [expands]
  · rename_i several
    rw [Option.map_eq_none_iff]
    exact ⟨fun quiet => ⟨several, quiet⟩, And.right⟩

/-- What is no name keeps its place when a macro is expanded in it. -/
theorem Term.exists_single_of_expand? {term : Term} {expanded : List Term}
    (other : ∀ text, term ≠ .name text) (expands : Term.expand? macros term = some expanded) :
    ∃ single, expanded = [single] := by
  cases term with
  | name text => exact absurd rfl (other text)
  | literal raw => cases expands
  | lam param body =>
      obtain ⟨inner, -, rfl⟩ := Option.map_eq_some_iff.mp expands
      exact ⟨_, rfl⟩
  | define name body => cases expands
  | app callee args =>
      rw [Term.expand?] at expands
      split at expands
      · cases expands
        exact ⟨_, rfl⟩
      · obtain ⟨inner, -, rfl⟩ := Option.map_eq_some_iff.mp expands
        exact ⟨_, rfl⟩

/-- A term that stands alone can be expanded where a single term comes of it. -/
theorem Term.sites_alone_eq_nil_iff {term : Term}
    (loose : Term.sites macros false term = [] ↔ Term.expand? macros term = none) :
    Term.sites macros true term = [] ↔ ∀ single, Term.expand? macros term ≠ some [single] := by
  by_cases named : ∃ text, term = .name text
  · obtain ⟨text, rfl⟩ := named
    rw [Term.sites, Term.expand?]
    cases macros.find? text with
    | none => simp
    | some body => simp [List.length_eq_one_iff]
  · have other : ∀ text, term ≠ .name text := fun text same => named ⟨text, same⟩
    have same : Term.sites macros true term = Term.sites macros false term := by
      cases term with
      | name text => exact absurd rfl (other text)
      | literal raw => rfl
      | lam param body => rfl
      | define name body => rfl
      | app callee args => rfl
    rw [same, loose]
    constructor
    · intro quiet single
      simp [quiet]
    · intro several
      cases expands : Term.expand? macros term with
      | none => rfl
      | some expanded =>
          obtain ⟨single, rfl⟩ := Term.exists_single_of_expand? other expands
          exact absurd expands (several single)

theorem Sequence.sites_cons_eq_nil_iff (head : Term) (tail : List Term) :
    Sequence.sites macros (head :: tail) = [] ↔
      Term.sites macros false head = [] ∧ Sequence.sites macros tail = [] := by
  simp [Sequence.sites]

theorem Sequence.expand?_cons_eq_none_iff (head : Term) (tail : List Term) :
    Sequence.expand? macros (head :: tail) = none ↔
      Term.expand? macros head = none ∧ Sequence.expand? macros tail = none := by
  rw [Sequence.expand?]
  cases Term.expand? macros head <;> simp

/-- Nothing is expanded in a sequence exactly when there is no place for it. -/
theorem Sequence.expand?_eq_none_iff (terms : List Term) :
    Sequence.expand? macros terms = none ↔ Sequence.sites macros terms = [] := by
  induction terms using Sequence.induction with
  | nil => simp [expand?, sites]
  | name text tail ih =>
      rw [expand?_cons_eq_none_iff, sites_cons_eq_nil_iff, ih, Term.expand?, Term.sites]
      cases macros.find? text <;> simp
  | literal raw tail ih =>
      rw [expand?_cons_eq_none_iff, sites_cons_eq_nil_iff, ih, Term.expand?, Term.sites]
      simp
  | lam param body tail ofBody ih =>
      rw [expand?_cons_eq_none_iff, sites_cons_eq_nil_iff, ih, Term.expand?, Term.sites]
      simp [ofBody]
  | define name body tail ofBody ih =>
      rw [expand?_cons_eq_none_iff, sites_cons_eq_nil_iff, ih, Term.expand?, Term.sites]
      simp
  | app callee args tail ofCallee ofArgs ih =>
      have loose : Term.sites macros false callee = [] ↔ Term.expand? macros callee = none := by
        simpa [sites_cons_eq_nil_iff, sites, expand?_singleton] using ofCallee.symm
      rw [expand?_cons_eq_none_iff, sites_cons_eq_nil_iff, ih, Term.expand?_app_eq_none_iff,
        ← Term.sites_alone_eq_nil_iff loose, ofArgs, Term.sites]
      simp

end Sites

/-! ## Stuck terms -/

/-- A term in normal form is printable when it is an atom. -/
theorem Term.Normal.isPrintable_eq {scope : Scope} {term : Term}
    (normal : term.Normal scope.macros) : scope.isPrintable term = term.isAtom := by
  cases normal with
  | name silent unknown => simp [Scope.isPrintable, Term.isAtom, silent, unknown]
  | literal raw => rfl
  | lam param expanded => rfl
  | app settled unready given unprintable => rfl

theorem Sequence.all_isPrintable_eq_false_iff {scope : Scope} {args : List Term}
    (given : ∀ arg ∈ args, arg.Normal scope.macros) :
    args.all scope.isPrintable = false ↔ ¬ ∀ arg ∈ args, arg.isAtom = true := by
  rw [← Bool.not_eq_true, List.all_eq_true]
  apply not_congr
  constructor
  · intro printable arg member
    rw [← (given arg member).isPrintable_eq]
    exact printable arg member
  · intro atoms arg member
    rw [(given arg member).isPrintable_eq]
    exact atoms arg member

theorem Term.normal_name_iff {macros : MacroTable} (text : Text) :
    (Term.name text).Normal macros ↔ text ≠ Word.input ∧ macros.find? text = none := by
  have absent : macros.contains text = false ↔ macros.find? text = none := by
    simp [MacroTable.contains]
  rw [← absent]
  constructor
  · rintro ⟨silent, unknown⟩
    exact ⟨silent, unknown⟩
  · rintro ⟨silent, unknown⟩
    exact .name silent unknown

theorem Term.normal_lam_iff {macros : MacroTable} (param : Text) (body : List Term) :
    (Term.lam param body).Normal macros ↔ Sequence.expand? macros body = none := by
  rw [Sequence.expand?_eq_none_iff]
  constructor
  · intro normal
    cases normal with
    | lam _ expanded => exact expanded
  · intro expanded
    exact .lam param expanded

/-- Reduction is stuck at the sequences of terms in normal form. -/
theorem Sequence.reduce_eq_stuck_iff (scope : Scope) (terms : List Term) :
    Sequence.reduce scope terms = .stuck ↔ ∀ term ∈ terms, term.Normal scope.macros := by
  induction terms using Sequence.induction with
  | nil => simp [reduce]
  | name text tail ih =>
      rw [reduce_cons_eq_stuck_iff, List.forall_mem_cons, ih, Term.reduce_name_eq_stuck_iff,
        Term.normal_name_iff]
  | literal raw tail ih =>
      rw [reduce_cons_eq_stuck_iff, List.forall_mem_cons, ih, Term.reduce]
      simp [Term.Normal.literal]
  | lam param body tail ofBody ih =>
      rw [reduce_cons_eq_stuck_iff, List.forall_mem_cons, ih, Term.reduce_lam_eq_stuck_iff,
        Term.normal_lam_iff]
  | define name body tail ofBody ih =>
      rw [reduce_cons_eq_stuck_iff, List.forall_mem_cons]
      constructor
      · rintro ⟨stuck, -⟩
        exact absurd stuck (Term.reduce_define_ne_stuck name body)
      · rintro ⟨normal, -⟩
        cases normal
  | app callee args tail ofCallee ofArgs ih =>
      rw [reduce_singleton, List.forall_mem_singleton] at ofCallee
      rw [reduce_cons_eq_stuck_iff, List.forall_mem_cons, ih, Term.reduce_app_eq_stuck_iff,
        ofCallee, ofArgs]
      apply and_congr_left
      intro _
      constructor
      · rintro ⟨settled, given, unready, unprintable⟩
        rw [all_isPrintable_eq_false_iff given] at unprintable
        exact .app settled unready given (not_and.mpr unprintable)
      · intro normal
        cases normal with
        | app settled unready given unprintable =>
            rw [all_isPrintable_eq_false_iff given]
            exact ⟨settled, given, unready, not_and.mp unprintable⟩

/-! ## Steps -/

namespace Session

variable {session : Session}

theorem step_eq_converged_iff (ready : session.awaiting = false) :
    session.step.1 = .ok .converged ↔
      Sequence.reduce session.scope session.program = .stuck := by
  have stepped := session.step_stepped
  generalize session.step.1 = result at stepped ⊢
  generalize session.step.2 = later at stepped
  cases stepped with
  | waiting waits => simp [waits] at ready
  | converged _ outcome => simp [outcome]
  | asking _ outcome => simp [outcome]
  | changed _ outcome _ => simp [outcome]
  | failed _ outcome => simp [outcome]
  | failedAfter _ outcome _ => simp [outcome]
  | refused _ happens _ =>
      have moves : Sequence.reduce session.scope session.program ≠ .stuck := by
        intro stuck
        rw [stuck] at happens
        cases happens
      simp [moves]

theorem silent_of_step_converged (converges : session.step.1 = .ok .converged) :
    session.Silent session.step.2 := by
  have stepped := session.step_stepped
  rw [converges] at stepped
  generalize session.step.2 = later at stepped ⊢
  cases stepped with
  | converged _ _ => exact .announce session

/-- A step of a session that does not wait for a line converges exactly when every term of its
program is in normal form. It changes nothing then and writes nothing but lines for the log. -/
theorem converged_iff_normal (ready : session.awaiting = false) :
    (session.step.1 = .ok .converged ↔ ∀ term ∈ session.program, term.Normal session.macros) ∧
      (session.step.1 = .ok .converged → session.Silent session.step.2) := by
  refine ⟨?_, silent_of_step_converged⟩
  rw [step_eq_converged_iff ready]
  exact Sequence.reduce_eq_stuck_iff session.scope session.program

/-- A macro of two terms is not expanded in the body of a function when it stands in front of
arguments or in a definition, and the printing name does not print a function. -/
theorem converged_of_unprintable_function :
    let two := "Two".toList
    let macros := MacroTable.empty.insert two [.name "A".toList, .name "B".toList]
    let inert := Term.lam "x".toList [.app (.name two) [], .define "M".toList [.name two]]
    let session : Session :=
      { program := [.app (.name Word.print) [inert], .literal "PoHiop".toList]
        macros := macros
        settings := {}
        outlet := { sink := .buffer } }
    session.awaiting = false ∧ session.step.1 = .ok .converged ∧
      (∀ term ∈ session.program, term.Normal macros) ∧ session.Silent session.step.2 := by
  intro two macros inert session
  have ready : session.awaiting = false := rfl
  have converges : session.step.1 = .ok .converged := rfl
  obtain ⟨settles, silent⟩ := converged_iff_normal ready
  exact ⟨ready, converges, settles.mp converges, silent converges⟩

end Session

end Splice
