import Splice.Expansion
import Splice.Term.Reader
import Splice.Settings.Basic
import Splice.Substitution

/-!
# Reduction

One reduction contracts the leftmost redex of a sequence. A definition leaves the
sequence for the macro table, a macro's name becomes its body, an application of a
function becomes the body with the arguments in place of the parameter, an
application of the printing name to printable terms becomes those terms, and the
name that asks for a line becomes what the pending line says.

Reduction is a function of the strategy, the macros and the pending line. What it
does to the world is said by an event: a reduction that changes the sequence has
exactly one, and one that fails has at most one before the failure.
-/

namespace Splice

/-- What a reduction may look at. -/
structure Scope where
  strategy : Strategy
  macros : MacroTable
  /-- The line that the host has handed over, if it has not been used yet. -/
  pending : Option Text

/-- What happens in one reduction. -/
inductive Event where
  /-- A macro is defined. -/
  | defined (name : Text) (body : List Term)
  /-- The name of a macro is replaced by its body. -/
  | expanded (name : Text)
  /-- A macro is expanded in the body of the function with this parameter. -/
  | expandedUnder (param : Text)
  /-- A function is applied. -/
  | substituted (param : Text) (args : List Term)
  /-- Terms are printed. -/
  | printed (args : List Term)
  /-- The pending line is used. -/
  | received (line : Text)
  deriving DecidableEq

/-- How a reduction ends. -/
inductive Outcome where
  /-- There is no redex. -/
  | stuck
  /-- The redex needs a line, and none is pending. -/
  | awaiting
  /-- The redex is contracted. -/
  | changed (event : Event) (next : List Term)
  /-- The reduction fails, perhaps after something has happened. -/
  | failed (before : Option Event) (error : Error)
  deriving DecidableEq

namespace Outcome

/-- The outcome of a whole from that of its part, put back by `rebuild`. -/
def within (rebuild : List Term → List Term) : Outcome → Outcome
  | stuck => stuck
  | awaiting => awaiting
  | changed event next => changed event (rebuild next)
  | failed before error => failed before error

end Outcome

namespace Scope

/-- The name under which errors in a line are reported. -/
def lineName : Text := "<input>".toList

/-- The outcome for the name that asks for a line. -/
def receive (scope : Scope) : Outcome :=
  match scope.pending with
  | none => .awaiting
  | some line =>
      match Sequence.parse lineName line with
      | .ok terms => .changed (.received line) terms
      | .error error => .failed (some (.received line)) error

/-- Whether a term prints as it stands: a literal, or a name that means nothing. -/
def isPrintable (scope : Scope) : Term → Bool
  | .literal _ => true
  | .name text => text != Word.input && !scope.macros.contains text
  | _ => false

end Scope

/-- The outcome of applying a function to arguments as they are. -/
def Outcome.substitution (param : Text) (body args : List Term) : Outcome :=
  .changed (.substituted param args) (Sequence.substitute param args body)

/-- The outcome for an application whose callee has the given outcome. A callee
must become a single term. -/
def Outcome.ofCallee (callee : Term) (args : List Term) : Outcome → Outcome
  | .changed event [single] => .changed event [.app single args]
  | .changed event several =>
      .failed (some event) (.calleeNotSingle callee.source several.length)
  | other => other

/-- The outcome for an application whose callee is stuck, from that of its
arguments. A function takes them as they are if it need not wait for them, and
once they are stuck; the printing name prints them if they can be printed.
Otherwise they are reduced. -/
@[macro_inline]
def Outcome.ofStuckCallee (scope : Scope) (callee : Term) (args : List Term)
    (ofArgs : Outcome) : Outcome :=
  match callee with
  | .lam param body =>
      if scope.strategy = .lazy ∨ Sequence.mentionsPrint body then
        .substitution param body args
      else
        match ofArgs with
        | .stuck => .substitution param body args
        | other => other.within fun next => [.app callee next]
  | .name text =>
      if text = Word.print ∧ args.all scope.isPrintable then .changed (.printed args) args
      else ofArgs.within fun next => [.app callee next]
  | _ => ofArgs.within fun next => [.app callee next]

mutual

/-- Reduces a term to the sequence that takes its place. -/
def Term.reduce (scope : Scope) : Term → Outcome
  | .name text =>
      if text = Word.input then scope.receive
      else
        match scope.macros.find? text with
        | some body => .changed (.expanded text) body
        | none => .stuck
  | .literal _ => .stuck
  | .lam param body =>
      match Sequence.expand? scope.macros body with
      | some expanded => .changed (.expandedUnder param) [.lam param expanded]
      | none => .stuck
  | .define name body =>
      if scope.macros.contains name then .failed none (.redefinition name)
      else .changed (.defined name body) []
  | .app (.define name body) _ =>
      .failed none (.calleeNotSingle (Term.define name body).source 0)
  | .app callee args =>
      match Term.reduce scope callee with
      | .stuck => .ofStuckCallee scope callee args (Sequence.reduce scope args)
      | other => other.ofCallee callee args

/-- Reduces the first term of a sequence that is not stuck. -/
def Sequence.reduce (scope : Scope) : List Term → Outcome
  | [] => .stuck
  | head :: tail =>
      match Term.reduce scope head with
      | .stuck => (Sequence.reduce scope tail).within (head :: ·)
      | other => other.within (· ++ tail)

end

end Splice
