import Splice.MacroTable

/-!
# Expansion of macros

One expansion replaces the leftmost name of a macro by the macro's body. Bodies
of functions and both sides of applications are searched, callee first; literals
and macro definitions are left alone. In the callee of an application only a
macro whose body is a single term is expanded, because the callee has to stay
one term.
-/

namespace Splice

mutual

/-- The sequence that a term becomes when its leftmost macro is expanded. -/
def Term.expand? (macros : MacroTable) : Term → Option (List Term)
  | .name text => macros.find? text
  | .literal _ => none
  | .lam param body => (Sequence.expand? macros body).map fun expanded => [.lam param expanded]
  | .define _ _ => none
  | .app callee args =>
      match Term.expand? macros callee with
      | some [single] => some [.app single args]
      | _ => (Sequence.expand? macros args).map fun expanded => [.app callee expanded]

/-- Expands the leftmost macro of a sequence, if there is one. -/
def Sequence.expand? (macros : MacroTable) : List Term → Option (List Term)
  | [] => none
  | head :: tail =>
      match Term.expand? macros head with
      | some expanded => some (expanded ++ tail)
      | none => (Sequence.expand? macros tail).map (head :: ·)

end

/-- Expands at most `count` macros, one after the other. Gives the sequence after
each expansion and, when nothing was left to expand before that, `true`. -/
def Sequence.expansions (macros : MacroTable) : Nat → List Term → List (List Term) × Bool
  | 0, _ => ([], false)
  | count + 1, terms =>
      match Sequence.expand? macros terms with
      | none => ([], true)
      | some expanded =>
          let (later, finished) := Sequence.expansions macros count expanded
          (expanded :: later, finished)

end Splice
