import Splice.Json.Value

/-!
# Records in JSON

A record is written as an object with named fields, where unknown members are
skipped and a known one may not be repeated, or as an array that lists all fields
in order. Every array and object that is looked into counts as a level of depth,
and a value may have a limited number of them; what is skipped does not count.
-/

namespace Splice.Json

/-- How many levels of arrays and objects a value may have. -/
def depthLimit : Nat := 127

/-- The text of a string. -/
def text? : Json → Option Text
  | string text => text
  | _ => none

/-- The value of a truth value. -/
def bool? : Json → Option Bool
  | bool value => some value
  | _ => none

/-- The greatest number that fits into 64 bits. -/
def natLimit : Nat := 18446744073709551615

/-- A number that is written with digits only and fits into 64 bits. -/
def nat? : Json → Option Nat
  | number literal =>
      if literal.all Char.isDigit then
        let value := literal.foldl (fun value digit => value * 10 + (digit.toNat - '0'.toNat)) 0
        if value ≤ natLimit then some value else none
      else none
  | _ => none

/-- The values of a key, in order. -/
def valuesOf (key : Text) (members : List (Option Text × Json)) : List Json :=
  members.filterMap fun (other, value) => if other = some key then some value else none

/-- The value of a field that may be left out but not repeated. -/
def field? (members : List (Option Text × Json)) (key : Text) : Option (Option Json) :=
  match valuesOf key members with
  | [] => some none
  | [value] => some (some value)
  | _ => none

/-- The fields of a record, in the order of their names, where a field may be left
out of an object. The key of every member must be a text. -/
def record? (names : List Text) : Json → Option (List (Option Json))
  | object members =>
      if members.all fun (key, _) => key.isSome then names.mapM (field? members) else none
  | array items => if items.length = names.length then some (items.map some) else none
  | _ => none

/-- Which of some names is given, as a string or as the key of an object with the
one member `null`. -/
def choice? (names : List Text) (value : Json) : Option Text :=
  let chosen := match value with
    | string text => text
    | object [(key, null)] => key
    | _ => none
  chosen.filter (· ∈ names)

end Splice.Json
