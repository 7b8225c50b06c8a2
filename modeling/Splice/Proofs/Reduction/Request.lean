import Splice.Proofs.Reduction.OneRedex
import Splice.Proofs.Reduction.Stuck

/-!
# Requests for a line

A reduction that needs a line has come to one occurrence of the asking name, with everything
that comes before it stuck. `Asks` says which occurrence that is, by the context around it.
There is at most one such context, it does not depend on the line, and the line is read into its
hole.
-/

namespace Splice

/-- An application with this callee, once it is stuck, leaves the reduction to the arguments. -/
def Term.Defers (scope : Scope) (callee : Term) : Prop :=
  ∀ param body, callee = .lam param body →
    scope.strategy ≠ .lazy ∧ Sequence.mentionsPrint body = false

/-- The reduction of a term comes to the asking name in the hole of a context. -/
inductive Term.Asks (scope : Scope) : Term → Context → Prop where
  | here : Term.Asks scope (.name Word.input) .hole
  | inCallee {callee : Term} {context : Context} (asks : Term.Asks scope callee context)
      (args : List Term) : Term.Asks scope (.app callee args) (.inCallee context args)
  | inArgs {callee head : Term} {front : List Term} {context : Context}
      (settled : Term.reduce scope callee = .stuck) (defers : callee.Defers scope)
      (quiet : Sequence.reduce scope front = .stuck) (asks : Term.Asks scope head context)
      (back : List Term) :
      Term.Asks scope (.app callee (front ++ head :: back))
        (.inArgs callee (.beside front context back))

/-- The reduction of a sequence comes to the asking name in the hole of a context. -/
inductive Sequence.Asks (scope : Scope) : List Term → Context → Prop where
  | beside {head : Term} {front : List Term} {context : Context}
      (quiet : Sequence.reduce scope front = .stuck) (asks : Term.Asks scope head context)
      (back : List Term) : Sequence.Asks scope (front ++ head :: back) (.beside front context back)

namespace Context

/-- Whether the hole is the callee of an application. -/
def holdsCallee : Context → Bool
  | hole => false
  | beside _ inner _ => inner.holdsCallee
  | inBody _ inner => inner.holdsCallee
  | inCallee hole _ => true
  | inCallee inner _ => inner.holdsCallee
  | inArgs _ inner => inner.holdsCallee

/-- The outcome of a reduction that comes to the asking name in the hole. -/
def receive (scope : Scope) (context : Context) : Outcome :=
  match scope.pending with
  | none => .awaiting
  | some line =>
      match Sequence.parse Scope.lineName line with
      | .error error => .failed (some (.received line)) error
      | .ok terms =>
          match context.fill? terms with
          | some next => .changed (.received line) next
          | none =>
              .failed (some (.received line)) (.calleeNotSingle Word.input terms.length)

theorem receive_hole (scope : Scope) : hole.receive scope = scope.receive := by
  unfold receive Scope.receive
  cases scope.pending with
  | none => rfl
  | some line =>
      dsimp only
      cases Sequence.parse Scope.lineName line <;> rfl

theorem receive_ne_stuck (scope : Scope) (context : Context) : context.receive scope ≠ .stuck := by
  unfold receive
  split
  · simp
  · split
    · simp
    · split
      · simp
      · simp

/-- Where filling a hole goes through `rebuild`, so does receiving a line. -/
theorem receive_within {inner outer : Context} {rebuild : List Term → List Term}
    (fills : ∀ terms, outer.fill? terms = (inner.fill? terms).map rebuild) (scope : Scope) :
    outer.receive scope = (inner.receive scope).within rebuild := by
  unfold receive
  cases scope.pending with
  | none => rfl
  | some line =>
      dsimp only
      cases Sequence.parse Scope.lineName line with
      | error error => rfl
      | ok terms =>
          dsimp only
          rw [fills]
          cases inner.fill? terms <;> rfl

end Context

namespace Outcome

theorem within_eq_awaiting_iff {rebuild : List Term → List Term} {outcome : Outcome} :
    outcome.within rebuild = .awaiting ↔ outcome = .awaiting := by
  cases outcome <;> simp

theorem beside_eq_awaiting {front back : List Term} {ofFront ofBack : Outcome}
    (awaits : beside front back ofFront ofBack = .awaiting) :
    ofFront = .awaiting ∨ ofFront = .stuck ∧ ofBack = .awaiting := by
  cases ofFront with
  | stuck => exact .inr ⟨rfl, within_eq_awaiting_iff.mp awaits⟩
  | awaiting => exact .inl rfl
  | changed event next => cases awaits
  | failed earlier error => cases awaits

theorem ofCallee_eq_awaiting {callee : Term} {args : List Term} {outcome : Outcome}
    (awaits : outcome.ofCallee callee args = .awaiting) : outcome = .awaiting := by
  unfold ofCallee at awaits
  split at awaits
  · cases awaits
  · cases awaits
  · exact awaits

end Outcome

namespace Term.Asks

variable {scope : Scope} {term : Term} {context : Context}

theorem not_define (asks : Term.Asks scope term context) (name : Text) (body : List Term) :
    term ≠ .define name body := by
  rintro rfl
  cases asks

theorem not_printable (asks : Term.Asks scope term context) : scope.isPrintable term = false := by
  cases asks with
  | here => simp [Scope.isPrintable]
  | inCallee asks args => rfl
  | inArgs settled defers quiet asks back => rfl

/-- What asks is the asking name itself, or stays one term. -/
theorem hole_or_single (asks : Term.Asks scope term context) :
    (term = .name Word.input ∧ context = .hole) ∨
      (context ≠ .hole ∧
        ∀ terms next, context.fill? terms = some next → ∃ single, next = [single]) := by
  cases asks with
  | here => exact .inl ⟨rfl, rfl⟩
  | inCallee asks args =>
      refine .inr ⟨nofun, ?_⟩
      intro terms next filled
      unfold Context.fill? at filled
      split at filled
      · cases filled
        exact ⟨_, rfl⟩
      · cases filled
  | inArgs settled defers quiet asks back =>
      refine .inr ⟨nofun, ?_⟩
      intro terms next filled
      obtain ⟨inner, -, rfl⟩ := Option.map_eq_some_iff.mp filled
      exact ⟨_, rfl⟩

end Term.Asks

theorem Sequence.reduce_of_quiet {scope : Scope} {front : List Term} {head : Term}
    {context : Context} (quiet : Sequence.reduce scope front = .stuck)
    (ofHead : Term.reduce scope head = context.receive scope) (back : List Term) :
    Sequence.reduce scope (front ++ head :: back) =
      (Context.beside front context back).receive scope := by
  have fills : ∀ terms, (Context.beside front context back).fill? terms =
      (context.fill? terms).map fun middle => front ++ middle ++ back := fun _ => rfl
  rw [Context.receive_within fills, reduce_append, quiet, reduce_cons, ofHead]
  cases receives : context.receive scope with
  | stuck => exact absurd receives (context.receive_ne_stuck scope)
  | awaiting => rfl
  | changed event next => simp [Outcome.beside]
  | failed earlier error => rfl

/-! ## The reduction that comes to a request -/

section Reduction

variable {scope : Scope}

/-- A callee that is the asking name has to become one term, and any other callee that asks
does so by itself. -/
theorem Term.Asks.ofCallee_receive {callee : Term} {context : Context}
    (asks : Term.Asks scope callee context) (args : List Term) :
    (context.receive scope).ofCallee callee args =
      (Context.inCallee context args).receive scope := by
  unfold Context.receive
  cases scope.pending with
  | none => rfl
  | some line =>
      dsimp only
      cases Sequence.parse Scope.lineName line with
      | error error => rfl
      | ok terms =>
          dsimp only [Context.fill?]
          -- The length of what fills the hole matters when the callee is the asking name itself.
          rcases asks.hole_or_single with ⟨rfl, rfl⟩ | ⟨-, single⟩
          · rcases terms with _ | ⟨first, _ | ⟨second, rest⟩⟩ <;> rfl
          · cases filled : context.fill? terms with
            | none => rfl
            | some next =>
                obtain ⟨term, rfl⟩ := single terms next filled
                rfl

/-- A term that comes to a request is reduced to what the context receives. -/
theorem Term.Asks.reduce_eq {term : Term} {context : Context}
    (asks : Term.Asks scope term context) : Term.reduce scope term = context.receive scope := by
  induction asks with
  | here => rw [Term.reduce, if_pos rfl, Context.receive_hole]
  | @inCallee callee context asks args ih =>
      rw [reduce_app scope args asks.not_define, ih, ← asks.ofCallee_receive args]
      split
      · rename_i quiet
        exact absurd quiet (context.receive_ne_stuck scope)
      · rfl
  | @inArgs callee head front context settled defers quiet asks back ih =>
      have undefining : ∀ name body, callee ≠ .define name body := by
        rintro name body rfl
        exact reduce_define_ne_stuck name body settled
      have ofArgs := Sequence.reduce_of_quiet quiet ih back
      have moves := (Context.beside front context back).receive_ne_stuck scope
      have unprintable : (front ++ head :: back).all scope.isPrintable = false := by
        simp [asks.not_printable]
      rw [reduce_app scope _ undefining, settled, ofArgs]
      rcases Outcome.ofStuckCallee_cases scope callee (front ++ head :: back)
        ((Context.beside front context back).receive scope) with
        ⟨param, body, rfl, ready, -⟩ | ⟨-, printable, -⟩ | ⟨-, -, leaves⟩
      · obtain ⟨delayed, silent⟩ := defers param body rfl
        simp [delayed, silent, moves] at ready
      · simp [unprintable] at printable
      · exact leaves.trans (Context.receive_within (fun _ => rfl) scope).symm

theorem Sequence.Asks.reduce_eq {terms : List Term} {context : Context}
    (asks : Sequence.Asks scope terms context) :
    Sequence.reduce scope terms = context.receive scope := by
  cases asks with
  | beside quiet asks back => exact reduce_of_quiet quiet asks.reduce_eq back

theorem Sequence.Asks.exists_mem {terms : List Term} {context : Context}
    (asks : Sequence.Asks scope terms context) :
    ∃ term ∈ terms, ∃ inner, Term.Asks scope term inner := by
  cases asks with
  | @beside head front context quiet asks back =>
      exact ⟨head, List.mem_append_right front List.mem_cons_self, context, asks⟩

/-! ## Every reduction that awaits a line -/

theorem Sequence.asks_cons {head : Term} {tail : List Term}
    (awaits : Sequence.reduce scope (head :: tail) = .awaiting)
    (ofHead : Term.reduce scope head = .awaiting → ∃ context, Term.Asks scope head context)
    (ofTail : Sequence.reduce scope tail = .awaiting →
      ∃ context, Sequence.Asks scope tail context) :
    ∃ context, Sequence.Asks scope (head :: tail) context := by
  rw [reduce_cons] at awaits
  rcases Outcome.beside_eq_awaiting awaits with inHead | ⟨settled, inTail⟩
  · obtain ⟨context, asks⟩ := ofHead inHead
    have quiet : Sequence.reduce scope [] = .stuck := by rw [Sequence.reduce]
    exact ⟨_, .beside quiet asks tail⟩
  · obtain ⟨context, asks⟩ := ofTail inTail
    cases asks with
    | @beside next front context quiet asks back =>
        have longer : Sequence.reduce scope (head :: front) = .stuck :=
          (reduce_cons_eq_stuck_iff head front).mpr ⟨settled, quiet⟩
        exact ⟨_, .beside longer asks back⟩

theorem Term.asks_app {callee : Term} {args : List Term}
    (awaits : Term.reduce scope (.app callee args) = .awaiting)
    (ofCallee : Term.reduce scope callee = .awaiting → ∃ context, Term.Asks scope callee context)
    (ofArgs : Sequence.reduce scope args = .awaiting →
      ∃ context, Sequence.Asks scope args context) :
    ∃ context, Term.Asks scope (.app callee args) context := by
  rcases callee.define_or_other with ⟨name, body, rfl⟩ | undefining
  · cases awaits
  · rw [reduce_app scope args undefining] at awaits
    split at awaits
    · rename_i settled
      rcases Outcome.ofStuckCallee_cases scope callee args (Sequence.reduce scope args) with
        ⟨param, body, rfl, -, takes⟩ | ⟨-, -, prints⟩ | ⟨unready, -, leaves⟩
      · rw [takes] at awaits
        cases awaits
      · rw [prints] at awaits
        cases awaits
      · rw [leaves, Outcome.within_eq_awaiting_iff] at awaits
        obtain ⟨context, asks⟩ := ofArgs awaits
        have defers : callee.Defers scope := fun param body same =>
          ⟨(unready param body same).1, (unready param body same).2.1⟩
        cases asks with
        | beside quiet asks back => exact ⟨_, .inArgs settled defers quiet asks back⟩
    · obtain ⟨context, asks⟩ := ofCallee (Outcome.ofCallee_eq_awaiting awaits)
      exact ⟨_, .inCallee asks args⟩

/-- A reduction that awaits a line has come to a request. -/
theorem Sequence.asks_of_reduce {terms : List Term}
    (awaits : Sequence.reduce scope terms = .awaiting) :
    ∃ context, Sequence.Asks scope terms context := by
  induction terms using Sequence.induction with
  | nil => cases awaits
  | name text tail ih =>
      refine asks_cons awaits ?_ ih
      intro inHead
      unfold Term.reduce at inHead
      split at inHead
      · rename_i asks
        exact ⟨.hole, asks ▸ .here⟩
      · split at inHead
        · cases inHead
        · cases inHead
  | literal raw tail ih => exact asks_cons awaits nofun ih
  | lam param body tail ofBody ih =>
      refine asks_cons awaits ?_ ih
      intro inHead
      unfold Term.reduce at inHead
      split at inHead
      · cases inHead
      · cases inHead
  | define name body tail ofBody ih =>
      refine asks_cons awaits ?_ ih
      intro inHead
      unfold Term.reduce at inHead
      split at inHead
      · cases inHead
      · cases inHead
  | app callee args tail ofCallee ofArgs ih =>
      refine asks_cons awaits ?_ ih
      intro inHead
      refine Term.asks_app inHead ?_ ofArgs
      intro inCallee
      rw [← reduce_singleton] at inCallee
      obtain ⟨context, asks⟩ := ofCallee inCallee
      obtain ⟨term, here, found⟩ := asks.exists_mem
      rwa [List.mem_singleton.mp here] at found

/-! ## One request at a time -/

/-- The first term of a sequence that is not stuck splits the sequence in one way. -/
theorem Sequence.split_unique {front front' back back' : List Term} {head head' : Term}
    (quiet : Sequence.reduce scope front = .stuck) (moves : Term.reduce scope head ≠ .stuck)
    (quiet' : Sequence.reduce scope front' = .stuck) (moves' : Term.reduce scope head' ≠ .stuck)
    (same : front ++ head :: back = front' ++ head' :: back') :
    front = front' ∧ head = head' ∧ back = back' := by
  induction front generalizing front' with
  | nil =>
      cases front' with
      | nil =>
          obtain ⟨rfl, rfl⟩ := List.cons.inj same
          exact ⟨rfl, rfl, rfl⟩
      | cons first rest =>
          obtain ⟨rfl, -⟩ := List.cons.inj same
          exact absurd ((reduce_cons_eq_stuck_iff head rest).mp quiet').1 moves
  | cons first rest ih =>
      rw [reduce_cons_eq_stuck_iff] at quiet
      cases front' with
      | nil =>
          obtain ⟨rfl, -⟩ := List.cons.inj same
          exact absurd quiet.1 moves'
      | cons first' rest' =>
          obtain ⟨rfl, remain⟩ := List.cons.inj same
          rw [reduce_cons_eq_stuck_iff] at quiet'
          obtain ⟨rfl, rfl, rfl⟩ := ih quiet.2 quiet'.2 remain
          exact ⟨rfl, rfl, rfl⟩

theorem Term.Asks.reduce_ne_stuck {term : Term} {context : Context}
    (asks : Term.Asks scope term context) : Term.reduce scope term ≠ .stuck := by
  rw [asks.reduce_eq]
  exact context.receive_ne_stuck scope

theorem Term.Asks.app_cases {callee : Term} {args : List Term} {context : Context}
    (asks : Term.Asks scope (.app callee args) context) :
    (∃ inner, Term.Asks scope callee inner ∧ context = .inCallee inner args) ∨
    ∃ front head inner back, Term.reduce scope callee = .stuck ∧
      Sequence.reduce scope front = .stuck ∧ Term.Asks scope head inner ∧
      args = front ++ head :: back ∧ context = .inArgs callee (.beside front inner back) := by
  cases asks with
  | inCallee asks args => exact .inl ⟨_, asks, rfl⟩
  | inArgs settled defers quiet asks back =>
      exact .inr ⟨_, _, _, back, settled, quiet, asks, rfl, rfl⟩

theorem Term.Asks.unique {term : Term} {context context' : Context}
    (asks : Term.Asks scope term context) (asks' : Term.Asks scope term context') :
    context' = context := by
  induction asks generalizing context' with
  | here =>
      cases asks' with
      | here => rfl
  | @inCallee callee context asks args ih =>
      -- A callee that asks is not stuck, so the arguments cannot have been reached.
      rcases asks'.app_cases with ⟨inner, inCallee, rfl⟩ |
        ⟨front, head, inner, back, settled, -⟩
      · rw [ih inCallee]
      · exact absurd settled asks.reduce_ne_stuck
  | @inArgs callee head front context settled defers quiet asks back ih =>
      rcases asks'.app_cases with ⟨inner, inCallee, rfl⟩ |
        ⟨front', head', inner, back', -, quiet', inHead, same, rfl⟩
      · exact absurd settled inCallee.reduce_ne_stuck
      · obtain ⟨rfl, rfl, rfl⟩ := Sequence.split_unique quiet asks.reduce_ne_stuck
          quiet' inHead.reduce_ne_stuck same
        rw [ih inHead]

theorem Sequence.Asks.exists_split {terms : List Term} {context : Context}
    (asks : Sequence.Asks scope terms context) :
    ∃ front head inner back, Sequence.reduce scope front = .stuck ∧ Term.Asks scope head inner ∧
      terms = front ++ head :: back ∧ context = .beside front inner back := by
  cases asks with
  | beside quiet asks back => exact ⟨_, _, _, back, quiet, asks, rfl, rfl⟩

/-- A sequence comes to at most one request. -/
theorem Sequence.Asks.unique {terms : List Term} {context context' : Context}
    (asks : Sequence.Asks scope terms context) (asks' : Sequence.Asks scope terms context') :
    context' = context := by
  obtain ⟨front, head, inner, back, quiet, inHead, rfl, rfl⟩ := asks.exists_split
  obtain ⟨front', head', inner', back', quiet', inHead', same, rfl⟩ := asks'.exists_split
  obtain ⟨rfl, rfl, rfl⟩ := split_unique quiet inHead.reduce_ne_stuck
    quiet' inHead'.reduce_ne_stuck same
  rw [inHead.unique inHead']

/-- Which request a term comes to does not depend on the line. -/
theorem Term.Asks.with_pending {term : Term} {context : Context}
    (asks : Term.Asks scope term context) (pending : Option Text) :
    Term.Asks { scope with pending := pending } term context := by
  induction asks with
  | here => exact .here
  | inCallee asks args ih => exact .inCallee ih args
  | @inArgs callee head front context settled defers quiet asks back ih =>
      have settled' : Term.reduce { scope with pending := pending } callee = .stuck :=
        Term.reduce_eq_stuck_of_macros settled rfl
      have quiet' : Sequence.reduce { scope with pending := pending } front = .stuck :=
        Sequence.reduce_eq_stuck_of_macros quiet rfl
      exact .inArgs settled' defers quiet' ih back

theorem Sequence.Asks.with_pending {terms : List Term} {context : Context}
    (asks : Sequence.Asks scope terms context) (pending : Option Text) :
    Sequence.Asks { scope with pending := pending } terms context := by
  cases asks with
  | @beside head front context quiet asks back =>
      have quiet' : Sequence.reduce { scope with pending := pending } front = .stuck :=
        reduce_eq_stuck_of_macros quiet rfl
      exact .beside quiet' (asks.with_pending pending) back

/-! ## The hole of a request -/

theorem Term.Asks.fill_input {term : Term} {context : Context}
    (asks : Term.Asks scope term context) :
    context.fill? [.name Word.input] = some [term] := by
  induction asks with
  | here => rfl
  | inCallee asks args ih => rw [Context.fill?, ih]
  | inArgs settled defers quiet asks back ih => simp [Context.fill?, ih]

/-- The asking name is in the hole. -/
theorem Sequence.Asks.fill_input {terms : List Term} {context : Context}
    (asks : Sequence.Asks scope terms context) :
    context.fill? [.name Word.input] = some terms := by
  cases asks with
  | beside quiet asks back => simp [Context.fill?, asks.fill_input]

theorem Term.Asks.fill_eq_none_iff {term : Term} {context : Context}
    (asks : Term.Asks scope term context) (terms : List Term) :
    context.fill? terms = none ↔ context.holdsCallee = true ∧ terms.length ≠ 1 := by
  induction asks with
  | here => simp [Context.fill?, Context.holdsCallee]
  | @inCallee callee context asks args ih =>
      rcases asks.hole_or_single with ⟨-, rfl⟩ | ⟨inside, single⟩
      · rcases terms with _ | ⟨first, _ | ⟨second, rest⟩⟩ <;>
          simp [Context.fill?, Context.holdsCallee]
      · have deeper : (Context.inCallee context args).holdsCallee = context.holdsCallee := by
          rw [Context.holdsCallee]
          exact inside
        rw [deeper, ← ih, Context.fill?]
        cases filled : context.fill? terms with
        | none => simp
        | some next =>
            obtain ⟨term, rfl⟩ := single terms next filled
            simp
  | inArgs settled defers quiet asks back ih => simp [Context.fill?, Context.holdsCallee, ih]

/-- A sequence can take the place of the request unless that is a callee and the sequence is not
one term. -/
theorem Sequence.Asks.fill_eq_none_iff {terms : List Term} {context : Context}
    (asks : Sequence.Asks scope terms context) (filling : List Term) :
    context.fill? filling = none ↔ context.holdsCallee = true ∧ filling.length ≠ 1 := by
  cases asks with
  | beside quiet asks back => simp [Context.fill?, Context.holdsCallee, asks.fill_eq_none_iff]

end Reduction

/-! ## Reductions without a request -/

/-- A stuck callee waits for its arguments, or does not look at their outcome. -/
theorem Outcome.ofStuckCallee_of_awaiting (scope : Scope) (callee : Term) (args : List Term) :
    ofStuckCallee scope callee args .awaiting = .awaiting ∨
      ∀ ofArgs, ofStuckCallee scope callee args ofArgs =
        ofStuckCallee scope callee args .awaiting := by
  cases callee with
  | lam param body =>
      by_cases direct : scope.strategy = .lazy ∨ Sequence.mentionsPrint body
      · refine .inr fun ofArgs => ?_
        simp only [ofStuckCallee, if_pos direct]
      · refine .inl ?_
        simp only [ofStuckCallee, if_neg direct, within_awaiting]
  | name text =>
      by_cases prints : text = Word.print ∧ args.all scope.isPrintable
      · refine .inr fun ofArgs => ?_
        simp only [ofStuckCallee, if_pos prints]
      · refine .inl ?_
        simp only [ofStuckCallee, if_neg prints, within_awaiting]
  | literal raw => exact .inl rfl
  | define name body => exact .inl rfl
  | app inner others => exact .inl rfl

section Pending

variable {scope : Scope}

theorem Term.reduce_app_with_pending {callee : Term} {args : List Term}
    (unasked : Term.reduce scope (.app callee args) ≠ .awaiting) (pending : Option Text)
    (ofCallee : Term.reduce scope callee ≠ .awaiting →
      Term.reduce { scope with pending := pending } callee = Term.reduce scope callee)
    (ofArgs : Sequence.reduce scope args ≠ .awaiting →
      Sequence.reduce { scope with pending := pending } args = Sequence.reduce scope args) :
    Term.reduce { scope with pending := pending } (.app callee args) =
      Term.reduce scope (.app callee args) := by
  rcases callee.define_or_other with ⟨name, body, rfl⟩ | undefining
  · rfl
  · rw [reduce_app scope args undefining] at unasked
    rw [reduce_app _ args undefining, reduce_app scope args undefining]
    cases inCallee : Term.reduce scope callee with
    | awaiting =>
        rw [inCallee] at unasked
        exact absurd rfl unasked
    | stuck =>
        rw [ofCallee (by simp [inCallee]), inCallee]
        rw [inCallee] at unasked
        by_cases inArgs : Sequence.reduce scope args = .awaiting
        · rcases Outcome.ofStuckCallee_of_awaiting scope callee args with awaits | ignores
          · rw [inArgs] at unasked
            exact absurd awaits unasked
          · dsimp only
            rw [inArgs]
            exact ignores _
        · rw [ofArgs inArgs]
          rfl
    | changed event next => rw [ofCallee (by simp [inCallee]), inCallee]
    | failed earlier error => rw [ofCallee (by simp [inCallee]), inCallee]

theorem Sequence.reduce_cons_with_pending {head : Term} {tail : List Term}
    (unasked : Sequence.reduce scope (head :: tail) ≠ .awaiting) (pending : Option Text)
    (ofHead : Term.reduce scope head ≠ .awaiting →
      Term.reduce { scope with pending := pending } head = Term.reduce scope head)
    (ofTail : Sequence.reduce scope tail ≠ .awaiting →
      Sequence.reduce { scope with pending := pending } tail = Sequence.reduce scope tail) :
    Sequence.reduce { scope with pending := pending } (head :: tail) =
      Sequence.reduce scope (head :: tail) := by
  rw [reduce_cons] at unasked
  rw [reduce_cons, reduce_cons]
  cases inHead : Term.reduce scope head with
  | awaiting =>
      rw [inHead] at unasked
      exact absurd rfl unasked
  | stuck =>
      have inTail : Sequence.reduce scope tail ≠ .awaiting := by
        intro awaits
        rw [inHead, awaits] at unasked
        exact absurd rfl unasked
      rw [ofHead (by simp [inHead]), inHead, ofTail inTail]
  | changed event next =>
      rw [ofHead (by simp [inHead]), inHead]
      rfl
  | failed earlier error =>
      rw [ofHead (by simp [inHead]), inHead]
      rfl

/-- A reduction that needs no line is the same with any line. -/
theorem Sequence.reduce_with_pending {terms : List Term} (nothing : scope.pending = none)
    (unasked : Sequence.reduce scope terms ≠ .awaiting) (pending : Option Text) :
    Sequence.reduce { scope with pending := pending } terms = Sequence.reduce scope terms := by
  induction terms using Sequence.induction with
  | nil => simp [reduce]
  | name text tail ih =>
      refine reduce_cons_with_pending unasked pending ?_ ih
      intro quiet
      by_cases asks : text = Word.input
      · rw [Term.reduce, if_pos asks, Scope.receive, nothing] at quiet
        exact absurd rfl quiet
      · rw [Term.reduce, Term.reduce, if_neg asks, if_neg asks]
  | literal raw tail ih => exact reduce_cons_with_pending unasked pending (fun _ => rfl) ih
  | lam param body tail ofBody ih =>
      exact reduce_cons_with_pending unasked pending (fun _ => rfl) ih
  | define name body tail ofBody ih =>
      exact reduce_cons_with_pending unasked pending (fun _ => rfl) ih
  | app callee args tail ofCallee ofArgs ih =>
      refine reduce_cons_with_pending unasked pending ?_ ih
      intro quiet
      rw [reduce_singleton, reduce_singleton] at ofCallee
      exact Term.reduce_app_with_pending quiet pending ofCallee ofArgs

end Pending

end Splice
