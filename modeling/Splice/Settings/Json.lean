import Splice.Json.Record
import Splice.Settings.Basic

/-!
# Settings in JSON

Settings are a record of five fields. A step limit that is left out of an object
is no limit.
-/

namespace Splice

namespace Strategy

/-- Every strategy with its name. -/
def names : List (Text × Strategy) :=
  [("Lazy".toList, lazy), ("Legacy".toList, legacy)]

/-- Reads a strategy. -/
def ofJson? (value : Json) : Option Strategy := do
  names.lookup (← value.choice? (names.map Prod.fst))

end Strategy

namespace Hollow

/-- Every choice with its name. -/
def names : List (Text × Hollow) :=
  [("Empty".toList, empty), ("Space".toList, space)]

/-- Reads a choice. -/
def ofJson? (value : Json) : Option Hollow := do
  names.lookup (← value.choice? (names.map Prod.fst))

end Hollow

namespace Settings

/-- The names of the fields, in order. -/
def fieldNames : List Text :=
  ["strategy".toList, "debug".toList, "trace".toList, "max_steps".toList, "empty_literal".toList]

/-- Reads a step limit. -/
def limitOfJson? : Json → Option (Option Nat)
  | .null => some none
  | value => value.nat?.map some

/-- Reads settings. -/
def ofJson? (value : Json) : Option Settings :=
  match value.record? fieldNames with
  | some [some strategy, some debug, some trace, maxSteps, some hollow] => do
      return {
        strategy := ← Strategy.ofJson? strategy
        debug := ← debug.bool?
        trace := ← trace.bool?
        maxSteps := ← limitOfJson? (maxSteps.getD .null)
        hollow := ← Hollow.ofJson? hollow }
  | _ => none

end Settings

end Splice
