import Splice.Proofs.Reduction.Leftmost

/-!
# One redex at a time

A reduction that changes a sequence contracts one redex at one position and leaves every other
term as it is. Positions are contexts: sequences with a hole for one term. The hole lies in a
sequence, in the callee of an application, or in the body of a function, and what fills it may
be any sequence, except that a callee stays one term.
-/

namespace Splice

/-- A sequence with a hole in the place of one term. -/
inductive Context where
  | hole
  | beside (before : List Term) (inner : Context) (after : List Term)
  | inBody (param : Text) (inner : Context)
  | inCallee (inner : Context) (args : List Term)
  | inArgs (callee : Term) (inner : Context)

namespace Context

/-- The sequence with a sequence in its hole. There is none if a callee does not become one
term. -/
def fill? : Context → List Term → Option (List Term)
  | hole, filling => some filling
  | beside before inner after, filling =>
      (inner.fill? filling).map fun middle => before ++ middle ++ after
  | inBody param inner, filling => (inner.fill? filling).map fun terms => [.lam param terms]
  | inCallee inner args, filling =>
      match inner.fill? filling with
      | some [single] => some [.app single args]
      | _ => none
  | inArgs callee inner, filling => (inner.fill? filling).map fun terms => [.app callee terms]

/-- The parameter of the outermost function around the hole. -/
def binder? : Context → Option Text
  | hole => none
  | beside _ inner _ => inner.binder?
  | inBody param _ => some param
  | inCallee inner _ => inner.binder?
  | inArgs _ inner => inner.binder?

end Context

/-- One sequence comes from another by one replacement at one position. The rule says what may
replace what, and may look at the outermost function around the position. -/
def ReplacesBy (rule : Option Text → Term → List Term → Prop) (terms next : List Term) : Prop :=
  ∃ (context : Context) (redex : Term) (result : List Term),
    context.fill? [redex] = some terms ∧ context.fill? result = some next ∧
      rule context.binder? redex result

namespace ReplacesBy

variable {rule : Option Text → Term → List Term → Prop} {terms next : List Term}

theorem here {redex : Term} (rewrites : rule none redex next) : ReplacesBy rule [redex] next :=
  ⟨.hole, redex, next, rfl, rfl, rewrites⟩

theorem beside (replaces : ReplacesBy rule terms next) (before after : List Term) :
    ReplacesBy rule (before ++ terms ++ after) (before ++ next ++ after) := by
  obtain ⟨context, redex, result, filled, refilled, rewrites⟩ := replaces
  refine ⟨.beside before context after, redex, result, ?_, ?_, rewrites⟩
  · rw [Context.fill?, filled, Option.map_some]
  · rw [Context.fill?, refilled, Option.map_some]

theorem callee {callee single : Term} (replaces : ReplacesBy rule [callee] [single])
    (args : List Term) : ReplacesBy rule [.app callee args] [.app single args] := by
  obtain ⟨context, redex, result, filled, refilled, rewrites⟩ := replaces
  refine ⟨.inCallee context args, redex, result, ?_, ?_, rewrites⟩
  · rw [Context.fill?, filled]
  · rw [Context.fill?, refilled]

theorem args (replaces : ReplacesBy rule terms next) (callee : Term) :
    ReplacesBy rule [.app callee terms] [.app callee next] := by
  obtain ⟨context, redex, result, filled, refilled, rewrites⟩ := replaces
  refine ⟨.inArgs callee context, redex, result, ?_, ?_, rewrites⟩
  · rw [Context.fill?, filled, Option.map_some]
  · rw [Context.fill?, refilled, Option.map_some]

/-- Inside the body of a function the rule sees that function. -/
theorem body {outer : Option Text → Term → List Term → Prop} {param : Text}
    (replaces : ReplacesBy rule terms next)
    (lifts : ∀ binder redex result, rule binder redex result → outer (some param) redex result) :
    ReplacesBy outer [.lam param terms] [.lam param next] := by
  obtain ⟨context, redex, result, filled, refilled, rewrites⟩ := replaces
  refine ⟨.inBody param context, redex, result, ?_, ?_, lifts _ _ _ rewrites⟩
  · rw [Context.fill?, filled, Option.map_some]
  · rw [Context.fill?, refilled, Option.map_some]

end ReplacesBy

/-! ## Expansion -/

/-- A name is replaced by the body of the macro with that name. -/
def MacroTable.Unfolds (macros : MacroTable) (_ : Option Text) (redex : Term)
    (result : List Term) : Prop :=
  ∃ text, redex = .name text ∧ macros.find? text = some result

theorem Sequence.expand?_cons_replaces {macros : MacroTable} {head : Term}
    {tail next : List Term} (expands : Sequence.expand? macros (head :: tail) = some next)
    (ofHead : ∀ expanded, Term.expand? macros head = some expanded →
      ReplacesBy macros.Unfolds [head] expanded)
    (ofTail : ∀ expanded, Sequence.expand? macros tail = some expanded →
      ReplacesBy macros.Unfolds tail expanded) :
    ReplacesBy macros.Unfolds (head :: tail) next := by
  rw [expand?] at expands
  cases found : Term.expand? macros head with
  | some expanded =>
      rw [found] at expands
      cases expands
      exact (ofHead expanded found).beside [] tail
  | none =>
      rw [found] at expands
      obtain ⟨expanded, inTail, rfl⟩ := Option.map_eq_some_iff.mp expands
      simpa using (ofTail expanded inTail).beside [head] []

theorem Sequence.expand?_singleton (macros : MacroTable) (term : Term) :
    Sequence.expand? macros [term] = Term.expand? macros term := by
  rw [expand?]
  cases Term.expand? macros term <;> simp [expand?]

/-- An expansion unfolds one macro at one position. -/
theorem Sequence.expand?_replaces {macros : MacroTable} {terms next : List Term}
    (expands : Sequence.expand? macros terms = some next) :
    ReplacesBy macros.Unfolds terms next := by
  induction terms using Sequence.induction generalizing next with
  | nil => cases expands
  | name text tail ih =>
      refine expand?_cons_replaces expands ?_ (fun _ => ih)
      intro body known
      exact .here ⟨text, rfl, known⟩
  | literal raw tail ih => exact expand?_cons_replaces expands nofun (fun _ => ih)
  | lam param body tail ofBody ih =>
      refine expand?_cons_replaces expands ?_ (fun _ => ih)
      intro expanded found
      obtain ⟨inner, inBody, rfl⟩ := Option.map_eq_some_iff.mp found
      exact (ofBody inBody).body fun _ _ _ unfolds => unfolds
  | define name body tail ofBody ih => exact expand?_cons_replaces expands nofun (fun _ => ih)
  | app callee args tail ofCallee ofArgs ih =>
      refine expand?_cons_replaces expands ?_ (fun _ => ih)
      intro expanded found
      unfold Term.expand? at found
      split at found
      · rename_i single inCallee
        cases found
        rw [← expand?_singleton] at inCallee
        exact (ofCallee inCallee).callee args
      · obtain ⟨inner, inArgs, rfl⟩ := Option.map_eq_some_iff.mp found
        exact (ofArgs inArgs).args callee

/-! ## Contraction -/

/-- The redexes of a scope with what happens when they are contracted and with the sequences
that take their places. In the body of a function only names of macros are redexes, the asking
name among them if it is one. -/
inductive Contraction (scope : Scope) : Event → Option Text → Term → List Term → Prop where
  | definition {name : Text} {body : List Term} (fresh : scope.macros.contains name = false) :
      Contraction scope (.defined name body) none (.define name body) []
  | expansion {text : Text} {body : List Term} (other : text ≠ Word.input)
      (known : scope.macros.find? text = some body) :
      Contraction scope (.expanded text) none (.name text) body
  | expansionUnder {param text : Text} {body : List Term}
      (known : scope.macros.find? text = some body) :
      Contraction scope (.expandedUnder param) (some param) (.name text) body
  | reception {line : Text} {terms : List Term} (pending : scope.pending = some line)
      (read : Sequence.parse Scope.lineName line = .ok terms) :
      Contraction scope (.received line) none (.name Word.input) terms
  | substitution {param : Text} {body args : List Term} :
      Contraction scope (.substituted param args) none (.app (.lam param body) args)
        (Sequence.substitute param args body)
  | printing {args : List Term} (printable : args.all scope.isPrintable) :
      Contraction scope (.printed args) none (.app (.name Word.print) args) args

theorem Outcome.within_eq_changed {rebuild : List Term → List Term} {outcome : Outcome}
    {event : Event} {next : List Term} (changes : outcome.within rebuild = .changed event next) :
    ∃ reduced, outcome = .changed event reduced ∧ rebuild reduced = next := by
  cases outcome with
  | stuck => cases changes
  | awaiting => cases changes
  | changed happened reduced =>
      cases changes
      exact ⟨reduced, rfl, rfl⟩
  | failed earlier error => cases changes

theorem Scope.receive_eq_changed {scope : Scope} {event : Event} {terms : List Term}
    (changes : scope.receive = .changed event terms) :
    ∃ line, scope.pending = some line ∧ Sequence.parse lineName line = .ok terms ∧
      event = .received line := by
  unfold receive at changes
  split at changes
  · cases changes
  · rename_i line pending
    split at changes
    · rename_i read parsed
      cases changes
      exact ⟨line, pending, parsed, rfl⟩
    · cases changes

theorem Outcome.ofCallee_eq_changed {callee : Term} {args next : List Term} {outcome : Outcome}
    {event : Event} (changes : outcome.ofCallee callee args = .changed event next) :
    ∃ single, outcome = .changed event [single] ∧ next = [.app single args] := by
  unfold ofCallee at changes
  split at changes
  · rename_i happened single
    cases changes
    exact ⟨single, rfl, rfl⟩
  · cases changes
  · rename_i several
    exact absurd changes (several event next)

theorem Session.settle_eq_changed {session after : Session} {event : Event} {reply : Reply}
    {next : List Term} (answer : session.settle event reply = (.changed next, after)) :
    reply = .changed next := by
  unfold settle at answer
  split at answer
  · exact (Prod.mk.inj answer).1
  · cases answer

/-- A session answers with a change only when its reduction has found one. -/
theorem Session.conclude_eq_changed {session after : Session} {outcome : Outcome}
    {next : List Term} (answer : session.conclude outcome = (.changed next, after)) :
    ∃ event, outcome = .changed event next := by
  cases outcome with
  | stuck => cases answer
  | awaiting => cases answer
  | changed event reduced =>
      cases settle_eq_changed answer
      exact ⟨event, rfl⟩
  | failed earlier error =>
      cases earlier with
      | none => cases answer
      | some event => cases settle_eq_changed answer

section Reduction

variable {scope : Scope} {event : Event}

/-- A term that is reduced is a redex, or holds one in its body, its callee or its arguments. -/
theorem Term.reduce_eq_changed {term : Term} {next : List Term}
    (reduces : Term.reduce scope term = .changed event next) :
    Contraction scope event none term next ∨
    (∃ param body expanded, term = .lam param body ∧ event = .expandedUnder param ∧
      Sequence.expand? scope.macros body = some expanded ∧ next = [.lam param expanded]) ∨
    (∃ callee args single, term = .app callee args ∧
      Term.reduce scope callee = .changed event [single] ∧ next = [.app single args]) ∨
    ∃ callee args reduced, term = .app callee args ∧
      Sequence.reduce scope args = .changed event reduced ∧ next = [.app callee reduced] := by
  cases term with
  | name text =>
      unfold Term.reduce at reduces
      split at reduces
      · rename_i asks
        obtain ⟨line, pending, read, rfl⟩ := Scope.receive_eq_changed reduces
        exact .inl (asks ▸ .reception pending read)
      · rename_i other
        split at reduces
        · rename_i body known
          cases reduces
          exact .inl (.expansion other known)
        · cases reduces
  | literal raw => cases reduces
  | lam param body =>
      unfold Term.reduce at reduces
      split at reduces
      · rename_i expanded inBody
        cases reduces
        exact .inr (.inl ⟨param, body, expanded, rfl, rfl, inBody, rfl⟩)
      · cases reduces
  | define name body =>
      unfold Term.reduce at reduces
      split at reduces
      · cases reduces
      · rename_i fresh
        cases reduces
        exact .inl (.definition (Bool.eq_false_iff.mpr fresh))
  | app callee args =>
      -- A definition as a callee fails before anything is reduced.
      rcases callee.define_or_other with ⟨name, body, rfl⟩ | undefining
      · cases reduces
      · rw [reduce_app scope args undefining] at reduces
        split at reduces
        · rcases Outcome.ofStuckCallee_cases scope callee args (Sequence.reduce scope args) with
            ⟨param, body, rfl, -, takes⟩ | ⟨rfl, printable, prints⟩ | ⟨-, -, leaves⟩
          · rw [takes] at reduces
            cases reduces
            exact .inl .substitution
          · rw [prints] at reduces
            cases reduces
            exact .inl (.printing printable)
          · rw [leaves] at reduces
            obtain ⟨reduced, inArgs, rfl⟩ := Outcome.within_eq_changed reduces
            exact .inr (.inr (.inr ⟨callee, args, reduced, rfl, inArgs, rfl⟩))
        · obtain ⟨single, inCallee, rfl⟩ := Outcome.ofCallee_eq_changed reduces
          exact .inr (.inr (.inl ⟨callee, args, single, rfl, inCallee, rfl⟩))

theorem Term.reduce_replaces {term : Term} {next : List Term}
    (reduces : Term.reduce scope term = .changed event next)
    (ofCallee : ∀ callee args single, term = .app callee args →
      Term.reduce scope callee = .changed event [single] →
        ReplacesBy (Contraction scope event) [callee] [single])
    (ofArgs : ∀ callee args reduced, term = .app callee args →
      Sequence.reduce scope args = .changed event reduced →
        ReplacesBy (Contraction scope event) args reduced) :
    ReplacesBy (Contraction scope event) [term] next := by
  rcases reduce_eq_changed reduces with contracts | ⟨param, body, expanded, rfl, rfl, inBody, rfl⟩ |
    ⟨callee, args, single, rfl, inCallee, rfl⟩ | ⟨callee, args, reduced, rfl, inArgs, rfl⟩
  · exact .here contracts
  · refine (Sequence.expand?_replaces inBody).body ?_
    rintro binder redex result ⟨text, rfl, known⟩
    exact .expansionUnder known
  · exact (ofCallee callee args single rfl inCallee).callee args
  · exact (ofArgs callee args reduced rfl inArgs).args callee

end Reduction

namespace Sequence

variable {scope : Scope} {event : Event}

theorem reduce_cons_replaces {head : Term} {tail next : List Term}
    (reduces : reduce scope (head :: tail) = .changed event next)
    (ofHead : ∀ reduced, Term.reduce scope head = .changed event reduced →
      ReplacesBy (Contraction scope event) [head] reduced)
    (ofTail : ∀ reduced, reduce scope tail = .changed event reduced →
      ReplacesBy (Contraction scope event) tail reduced) :
    ReplacesBy (Contraction scope event) (head :: tail) next := by
  rw [reduce_cons] at reduces
  cases found : Term.reduce scope head with
  | stuck =>
      rw [found] at reduces
      obtain ⟨reduced, inTail, rfl⟩ := Outcome.within_eq_changed reduces
      simpa using (ofTail reduced inTail).beside [head] []
  | awaiting => rw [found] at reduces; cases reduces
  | changed happened reduced =>
      rw [found] at reduces
      cases reduces
      exact (ofHead reduced found).beside [] tail
  | failed earlier error => rw [found] at reduces; cases reduces

/-- A reduction that changes a sequence contracts one redex at one position. -/
theorem reduce_replaces {terms next : List Term}
    (reduces : reduce scope terms = .changed event next) :
    ReplacesBy (Contraction scope event) terms next := by
  induction terms using Sequence.induction generalizing next with
  | nil => cases reduces
  | name text tail ih =>
      refine reduce_cons_replaces reduces ?_ (fun _ => ih)
      exact fun reduced found => Term.reduce_replaces found nofun nofun
  | literal raw tail ih => exact reduce_cons_replaces reduces nofun (fun _ => ih)
  | lam param body tail ofBody ih =>
      refine reduce_cons_replaces reduces ?_ (fun _ => ih)
      exact fun reduced found => Term.reduce_replaces found nofun nofun
  | define name body tail ofBody ih =>
      refine reduce_cons_replaces reduces ?_ (fun _ => ih)
      exact fun reduced found => Term.reduce_replaces found nofun nofun
  | app callee args tail ofCallee ofArgs ih =>
      refine reduce_cons_replaces reduces ?_ (fun _ => ih)
      intro reduced found
      apply Term.reduce_replaces found
      · rintro _ _ single ⟨⟩ inCallee
        rw [← reduce_singleton] at inCallee
        exact ofCallee inCallee
      · rintro _ _ changed ⟨⟩ inArgs
        exact ofArgs inArgs

end Sequence

/-! ## Steps of a session -/

/-- A step of a session that does not wait reduces the program. The reduction of a program in
two parts is that of the first part, with the second left alone, unless the first part has no
redex; it tries the head before the tail; and it changes the program by the contraction of one
redex at one position. -/
theorem Session.step_contracts_leftmost (session : Session) (front back : List Term) :
    (session.awaiting = false →
      session.step =
        match session.announce.reduce session.announce.program with
        | (.unchanged, after) => (.ok .converged, after)
        | (.awaiting, after) => (.ok .awaiting, { after with awaiting := true })
        | (.changed next, after) =>
            (.ok .changed, { after with program := next, steps := after.steps + 1 })
        | (.failed error, after) => (.error error, after)) ∧
    (session.reduce (front ++ back) =
      match session.reduce front with
      | (.unchanged, after) =>
          ((after.reduce back).1.within (front ++ ·), (after.reduce back).2)
      | (.awaiting, after) => (.awaiting, after)
      | (.changed next, after) => (.changed (next ++ back), after)
      | (.failed error, after) => (.failed error, after)) ∧
    session.reduce (front ++ back) =
      session.conclude (Sequence.headFirst session.scope (front ++ back)) ∧
    ∀ next after, session.reduce (front ++ back) = (.changed next, after) →
      ∃ event, ReplacesBy (Contraction session.scope event) (front ++ back) next := by
  refine ⟨session.step_eq_reduce, ?_, ?_, ?_⟩
  · rw [session.reduce_append]
    rcases session.reduce front with ⟨_ | _ | next | error, after⟩ <;> rfl
  · rw [reduce, Sequence.reduce_eq_headFirst]
  · intro next after changes
    obtain ⟨event, reduces⟩ := conclude_eq_changed changes
    exact ⟨event, Sequence.reduce_replaces reduces⟩

/-- Two copies of an argument take the place of an application between two free names. -/
theorem Session.step_contracts_leftmost_twice :
    let session : Session := .new
      [.name "F".toList, .app (.lam "x".toList [.name "x".toList, .name "x".toList])
        [.literal "PoHiop".toList], .name "G".toList] {} .buffer
    session.awaiting = false ∧ session.step.1 = .ok .changed ∧
      session.reduce ([.name "F".toList] ++ session.program.tail) =
        (.changed [.name "F".toList, .literal "PoHiop".toList, .literal "PoHiop".toList,
          .name "G".toList], session) ∧
      ∃ event, ReplacesBy (Contraction session.scope event)
        ([.name "F".toList] ++ session.program.tail)
        [.name "F".toList, .literal "PoHiop".toList, .literal "PoHiop".toList,
          .name "G".toList] := by
  intro session
  have steps := (session.step_contracts_leftmost [] []).1 rfl
  refine ⟨rfl, ?_, rfl, (session.step_contracts_leftmost _ _).2.2.2 _ session rfl⟩
  rw [steps]
  rfl

end Splice
