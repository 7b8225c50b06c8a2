import Splice.Word

/-!
# Settings

What a host chooses about a run: how arguments are treated, what is logged, how
many steps may be taken, and what a hollow literal prints.
-/

namespace Splice

/-- How the application of a function treats its arguments. -/
inductive Strategy where
  /-- They are substituted as they are. -/
  | lazy
  /-- They are reduced first, unless the body of the function prints. -/
  | legacy
  deriving DecidableEq

/-- The choices of a host. -/
structure Settings where
  strategy : Strategy := .lazy
  /-- Log one line for every contraction. -/
  debug : Bool := false
  /-- Log the whole program before every step. -/
  trace : Bool := false
  /-- The number of steps that may be taken; nothing sets no limit. -/
  maxSteps : Option Nat := some 100000
  hollow : Hollow := .empty
  deriving DecidableEq

end Splice
