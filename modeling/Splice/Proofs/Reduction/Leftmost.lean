import Splice.Session.Basic

/-!
# Leftmost reduction

A sequence is reduced at its first term that is not stuck, and the terms after it are not
looked at. So the reduction of two sequences side by side is that of the first unless the first
is stuck. The same holds of a session, whose sink, macros and pending line take part in it.

The reduction is also given a second time, as a list of priorities for the head of a sequence
with its tail at hand, and the two are shown to agree.
-/

namespace Splice

namespace Outcome

@[simp]
theorem within_stuck (rebuild : List Term → List Term) : stuck.within rebuild = stuck := rfl

@[simp]
theorem within_awaiting (rebuild : List Term → List Term) :
    awaiting.within rebuild = awaiting := rfl

@[simp]
theorem within_changed (rebuild : List Term → List Term) (event : Event) (next : List Term) :
    (changed event next).within rebuild = changed event (rebuild next) := rfl

@[simp]
theorem within_failed (rebuild : List Term → List Term) (earlier : Option Event) (error : Error) :
    (failed earlier error).within rebuild = failed earlier error := rfl

@[simp]
theorem within_within (outer inner : List Term → List Term) (outcome : Outcome) :
    (outcome.within inner).within outer = outcome.within fun next => outer (inner next) := by
  cases outcome <;> rfl

@[simp]
theorem within_self (outcome : Outcome) : (outcome.within fun next => next) = outcome := by
  cases outcome <;> rfl

/-- The outcome of two sequences side by side, from the outcomes of both. -/
def beside (front back : List Term) (ofFront ofBack : Outcome) : Outcome :=
  match ofFront with
  | stuck => ofBack.within (front ++ ·)
  | other => other.within (· ++ back)

end Outcome

namespace Sequence

theorem reduce_cons (scope : Scope) (head : Term) (tail : List Term) :
    reduce scope (head :: tail) =
      .beside [head] tail (Term.reduce scope head) (reduce scope tail) := by
  rw [reduce]
  cases Term.reduce scope head <;> rfl

@[simp]
theorem reduce_singleton (scope : Scope) (term : Term) :
    reduce scope [term] = Term.reduce scope term := by
  rw [reduce_cons]
  cases Term.reduce scope term <;> simp [Outcome.beside, reduce]

/-- The terms after a sequence matter only when it is stuck, and then they alone do. -/
theorem reduce_append (scope : Scope) (front back : List Term) :
    reduce scope (front ++ back) =
      .beside front back (reduce scope front) (reduce scope back) := by
  induction front with
  | nil => simp [reduce, Outcome.beside]
  | cons head tail ih =>
      rw [List.cons_append, reduce_cons, reduce_cons, ih]
      cases Term.reduce scope head with
      | stuck => cases reduce scope tail <;> simp [Outcome.beside]
      | awaiting => rfl
      | changed event next => simp [Outcome.beside]
      | failed earlier error => rfl

end Sequence

/-! ## Applications -/

/-- A stuck callee takes its arguments, prints them, or leaves the reduction to them. -/
theorem Outcome.ofStuckCallee_cases (scope : Scope) (callee : Term) (args : List Term)
    (ofArgs : Outcome) :
    (∃ param body, callee = .lam param body ∧
      (scope.strategy = .lazy ∨ Sequence.mentionsPrint body = true ∨ ofArgs = .stuck) ∧
      ofStuckCallee scope callee args ofArgs = .substitution param body args) ∨
    (callee = .name Word.print ∧ args.all scope.isPrintable = true ∧
      ofStuckCallee scope callee args ofArgs = .changed (.printed args) args) ∨
    ((∀ param body, callee = .lam param body → scope.strategy ≠ .lazy ∧
        Sequence.mentionsPrint body = false ∧ ofArgs ≠ .stuck) ∧
      (callee = .name Word.print → args.all scope.isPrintable = false) ∧
      ofStuckCallee scope callee args ofArgs = ofArgs.within fun next => [.app callee next]) := by
  cases callee with
  | lam param body =>
      by_cases direct : scope.strategy = .lazy ∨ Sequence.mentionsPrint body
      · exact .inl ⟨param, body, rfl, direct.imp_right .inl, if_pos direct⟩
      · have delayed : ofStuckCallee scope (.lam param body) args ofArgs = _ := if_neg direct
        rw [not_or, Bool.not_eq_true] at direct
        by_cases settled : ofArgs = .stuck
        · subst settled
          exact .inl ⟨param, body, rfl, .inr (.inr rfl), delayed⟩
        · refine .inr (.inr ⟨?_, nofun, ?_⟩)
          · rintro other inside ⟨⟩
            exact ⟨direct.1, direct.2, settled⟩
          · rw [delayed]
            cases ofArgs with
            | stuck => exact absurd rfl settled
            | awaiting => rfl
            | changed event next => rfl
            | failed earlier error => rfl
  | name text =>
      by_cases prints : text = Word.print ∧ args.all scope.isPrintable
      · exact .inr (.inl ⟨congrArg Term.name prints.1, prints.2, if_pos prints⟩)
      · refine .inr (.inr ⟨nofun, ?_, if_neg prints⟩)
        rintro ⟨⟩
        simpa using prints
  | literal raw => exact .inr (.inr ⟨nofun, nofun, rfl⟩)
  | define name body => exact .inr (.inr ⟨nofun, nofun, rfl⟩)
  | app inner others => exact .inr (.inr ⟨nofun, nofun, rfl⟩)

/-- A callee is a definition, which is refused as it stands, or a term that is reduced first. -/
theorem Term.define_or_other (callee : Term) :
    (∃ name body, callee = .define name body) ∨ ∀ name body, callee ≠ .define name body := by
  cases callee with
  | define name body => exact .inl ⟨name, body, rfl⟩
  | name text => exact .inr nofun
  | literal raw => exact .inr nofun
  | lam param body => exact .inr nofun
  | app inner others => exact .inr nofun

theorem Term.reduce_app (scope : Scope) {callee : Term} (args : List Term)
    (undefining : ∀ name body, callee ≠ .define name body) :
    Term.reduce scope (.app callee args) =
      match Term.reduce scope callee with
      | .stuck => .ofStuckCallee scope callee args (Sequence.reduce scope args)
      | other => other.ofCallee callee args := by
  cases callee with
  | define name body => exact absurd rfl (undefining name body)
  | name text => rfl
  | literal raw => rfl
  | lam param body => rfl
  | app inner others => rfl

/-! ## Head first -/

/-- The outcome of an application in front of `tail`, from the outcomes of its callee, its
arguments and the tail. The callee comes first and has to stay one term. Then a function takes
its arguments, at once or when they are stuck, the printing name prints them when it can, and
otherwise the arguments come before the tail. -/
def Outcome.ofApplication (scope : Scope) (callee : Term) (args tail : List Term)
    (ofCallee ofArgs ofTail : Outcome) : Outcome :=
  match ofCallee with
  | .awaiting => .awaiting
  | .failed earlier error => .failed earlier error
  | .changed event [single] => .changed event (.app single args :: tail)
  | .changed event several =>
      .failed (some event) (.calleeNotSingle callee.source several.length)
  | .stuck =>
      match callee with
      | .lam param body =>
          if scope.strategy = .lazy ∨ Sequence.mentionsPrint body then
            .changed (.substituted param args) (Sequence.substitute param args body ++ tail)
          else
            match ofArgs with
            | .stuck =>
                .changed (.substituted param args) (Sequence.substitute param args body ++ tail)
            | other => other.within fun next => .app callee next :: tail
      | _ =>
          if callee = .name Word.print ∧ args.all scope.isPrintable then
            .changed (.printed args) (args ++ tail)
          else
            match ofArgs with
            | .stuck => ofTail.within (.app callee args :: ·)
            | other => other.within fun next => .app callee next :: tail

/-- One reduction, told by the head of the sequence: the asking name, a definition, the name of
a macro, an application, a function, a literal. The tail is entered when the head is stuck. -/
def Sequence.headFirst (scope : Scope) : List Term → Outcome
  | [] => .stuck
  | .name text :: tail =>
      if text = Word.input then scope.receive.within (· ++ tail)
      else
        match scope.macros.find? text with
        | some body => .changed (.expanded text) (body ++ tail)
        | none => (headFirst scope tail).within (.name text :: ·)
  | .define name body :: tail =>
      if scope.macros.contains name then .failed none (.redefinition name)
      else .changed (.defined name body) tail
  | .app (.define name body) _ :: _ =>
      .failed none (.calleeNotSingle (Term.define name body).source 0)
  | .app callee args :: tail =>
      .ofApplication scope callee args tail
        (headFirst scope [callee]) (headFirst scope args) (headFirst scope tail)
  | .lam param body :: tail =>
      match Sequence.expand? scope.macros body with
      | some expanded => .changed (.expandedUnder param) (.lam param expanded :: tail)
      | none => (headFirst scope tail).within (.lam param body :: ·)
  | .literal raw :: tail => (headFirst scope tail).within (.literal raw :: ·)
termination_by terms => sizeOf terms
decreasing_by
  all_goals simp
  all_goals try omega
  all_goals cases tail <;> simp <;> omega

theorem Outcome.beside_ofStuckCallee (scope : Scope) (callee : Term) (args tail : List Term)
    (ofArgs ofTail : Outcome) :
    beside [.app callee args] tail (ofStuckCallee scope callee args ofArgs) ofTail =
      ofApplication scope callee args tail .stuck ofArgs ofTail := by
  cases callee with
  | lam param body =>
      by_cases direct : scope.strategy = .lazy ∨ Sequence.mentionsPrint body
      · simp only [ofStuckCallee, ofApplication, if_pos direct]
        rfl
      · simp only [ofStuckCallee, ofApplication, if_neg direct]
        cases ofArgs <;> rfl
  | name text =>
      by_cases prints : text = Word.print ∧ args.all scope.isPrintable
      · simp only [ofStuckCallee, ofApplication, Term.name.injEq, if_pos prints]
        rfl
      · simp only [ofStuckCallee, ofApplication, Term.name.injEq, if_neg prints]
        cases ofArgs <;> rfl
  | literal raw => cases ofArgs <;> rfl
  | define name body => cases ofArgs <;> rfl
  | app inner others => cases ofArgs <;> rfl

theorem Sequence.reduce_app_cons (scope : Scope) {callee : Term} (args tail : List Term)
    (undefining : ∀ name body, callee ≠ .define name body) :
    Sequence.reduce scope (.app callee args :: tail) =
      .ofApplication scope callee args tail (Sequence.reduce scope [callee])
        (Sequence.reduce scope args) (Sequence.reduce scope tail) := by
  rw [reduce_cons, reduce_singleton, Term.reduce_app scope args undefining]
  cases Term.reduce scope callee with
  | stuck => exact Outcome.beside_ofStuckCallee scope callee args tail _ _
  | awaiting => rfl
  | changed event next => rcases next with _ | ⟨first, _ | ⟨second, rest⟩⟩ <;> rfl
  | failed earlier error => rfl

theorem Outcome.beside_receive (scope : Scope) (front back : List Term) (ofBack : Outcome) :
    beside front back scope.receive ofBack = scope.receive.within (· ++ back) := by
  unfold Scope.receive
  -- The asking name is never stuck.
  cases scope.pending with
  | none => rfl
  | some line =>
      dsimp only
      cases Sequence.parse Scope.lineName line <;> rfl

/-- Reduction tries the head of a sequence by the list of priorities, and the tail after it. -/
theorem Sequence.reduce_eq_headFirst (scope : Scope) (terms : List Term) :
    Sequence.reduce scope terms = Sequence.headFirst scope terms := by
  induction terms using Sequence.induction with
  | nil => rw [reduce, headFirst]
  | name text tail ih =>
      rw [reduce_cons, headFirst, Term.reduce, ih]
      by_cases asks : text = Word.input
      · rw [if_pos asks, if_pos asks, Outcome.beside_receive]
      · rw [if_neg asks, if_neg asks]
        cases scope.macros.find? text <;> rfl
  | literal raw tail ih =>
      rw [reduce_cons, headFirst, Term.reduce, ih]
      rfl
  | lam param body tail ofBody ih =>
      rw [reduce_cons, headFirst, Term.reduce, ih]
      cases Sequence.expand? scope.macros body <;> rfl
  | define name body tail ofBody ih =>
      rw [reduce_cons, headFirst, Term.reduce, ih]
      split <;> rfl
  | app callee args tail ofCallee ofArgs ih =>
      rcases callee.define_or_other with ⟨name, body, rfl⟩ | undefining
      · rw [headFirst]
        rfl
      · rw [reduce_app_cons scope args tail undefining, ofCallee, ofArgs, ih, headFirst]
        exact undefining

/-! ## Sessions -/

/-- What a session answers when it is asked to reduce a sequence. -/
inductive Reply where
  /-- There is no redex. -/
  | unchanged
  /-- The redex needs a line, and none is pending. -/
  | awaiting
  /-- The redex is contracted. -/
  | changed (next : List Term)
  /-- The reduction fails. -/
  | failed (error : Error)

/-- The reply about a whole from that about its part, put back by `rebuild`. -/
def Reply.within (rebuild : List Term → List Term) : Reply → Reply
  | changed next => changed (rebuild next)
  | other => other

namespace Session

/-- Lets an event happen and gives a reply, unless the sink refuses. -/
def settle (session : Session) (event : Event) (reply : Reply) : Reply × Session :=
  match session.perform event with
  | (none, after) => (reply, after)
  | (some refusal, after) => (.failed refusal, after)

/-- Lets what happens in a reduction happen to everything but the program. -/
def conclude (session : Session) : Outcome → Reply × Session
  | .stuck => (.unchanged, session)
  | .awaiting => (.awaiting, session)
  | .changed event next => session.settle event (.changed next)
  | .failed none error => (.failed error, session)
  | .failed (some event) error => session.settle event (.failed error)

/-- Reduces a sequence, with all that happens to the session but for its program. -/
def reduce (session : Session) (terms : List Term) : Reply × Session :=
  session.conclude (Sequence.reduce session.scope terms)

theorem step_eq_reduce (session : Session) (ready : session.awaiting = false) :
    session.step =
      match session.announce.reduce session.announce.program with
      | (.unchanged, after) => (.ok .converged, after)
      | (.awaiting, after) => (.ok .awaiting, { after with awaiting := true })
      | (.changed next, after) =>
          (.ok .changed, { after with program := next, steps := after.steps + 1 })
      | (.failed error, after) => (.error error, after) := by
  rw [step, ready, if_neg Bool.false_ne_true, reduce]
  dsimp only
  cases Sequence.reduce session.announce.scope session.announce.program with
  | stuck => rfl
  | awaiting => rfl
  | changed event next =>
      simp only [conclude, settle]
      rcases session.announce.perform event with ⟨_ | refusal, after⟩ <;> rfl
  | failed earlier error =>
      cases earlier with
      | none => rfl
      | some event =>
          simp only [conclude, settle]
          rcases session.announce.perform event with ⟨_ | refusal, after⟩ <;> rfl

theorem settle_within (session : Session) (event : Event) (reply : Reply)
    (rebuild : List Term → List Term) :
    session.settle event (reply.within rebuild) =
      ((session.settle event reply).1.within rebuild, (session.settle event reply).2) := by
  unfold settle
  rcases session.perform event with ⟨_ | refusal, after⟩ <;> rfl

/-- What is put around a part touches neither failures nor what happens. -/
theorem conclude_within (session : Session) (rebuild : List Term → List Term)
    (outcome : Outcome) :
    session.conclude (outcome.within rebuild) =
      ((session.conclude outcome).1.within rebuild, (session.conclude outcome).2) := by
  cases outcome with
  | stuck => rfl
  | awaiting => rfl
  | changed event next => exact session.settle_within event (.changed next) rebuild
  | failed earlier error =>
      cases earlier with
      | none => rfl
      | some event => exact session.settle_within event (.failed error) rebuild

/-- A session reduces two sequences side by side as it reduces the first, unless there is no
redex in it; then nothing has happened yet, and the session reduces the second. -/
theorem reduce_append (session : Session) (front back : List Term) :
    session.reduce (front ++ back) =
      match session.reduce front with
      | (.unchanged, after) =>
          ((after.reduce back).1.within (front ++ ·), (after.reduce back).2)
      | (reply, after) => (reply.within (· ++ back), after) := by
  rw [reduce, Sequence.reduce_append, reduce]
  cases Sequence.reduce session.scope front with
  | stuck => exact session.conclude_within _ _
  | awaiting => rfl
  | changed event next =>
      simp only [Outcome.beside, Outcome.within, conclude, settle]
      rcases session.perform event with ⟨_ | refusal, after⟩ <;> rfl
  | failed earlier error =>
      cases earlier with
      | none => rfl
      | some event =>
          simp only [Outcome.beside, Outcome.within, conclude, settle]
          rcases session.perform event with ⟨_ | refusal, after⟩ <;> rfl

end Session

end Splice
