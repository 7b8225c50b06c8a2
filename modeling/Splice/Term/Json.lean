import Splice.Json.Record
import Splice.Term.Basic

/-!
# Terms in JSON

A term is an object with one member, whose key tells what the term is.
-/

namespace Splice

namespace Term

/-- The key of a bare name. -/
def nameKey : Text := "Token".toList

/-- The key of a literal. -/
def literalKey : Text := "Literal".toList

/-- The key of a function. -/
def lamKey : Text := "Func".toList

/-- The key of a macro definition. -/
def defineKey : Text := "MacroDef".toList

/-- The key of an application. -/
def appKey : Text := "Apply".toList

end Term

/-! ## Writing -/

mutual

/-- A term as JSON. -/
def Term.toJson : Term → Json
  | .name text => .object [(some Term.nameKey, .string (some text))]
  | .literal raw => .object [(some Term.literalKey, .string (some raw))]
  | .lam param body =>
      .object [(some Term.lamKey, .object [(some "param".toList, .string (some param)),
        (some "body".toList, .array (Sequence.toJsonItems body))])]
  | .define name body =>
      .object [(some Term.defineKey, .object [(some "name".toList, .string (some name)),
        (some "body".toList, .array (Sequence.toJsonItems body))])]
  | .app callee args =>
      .object [(some Term.appKey, .object [(some "callee".toList, Term.toJson callee),
        (some "args".toList, .array (Sequence.toJsonItems args))])]

/-- The terms of a sequence as JSON. -/
def Sequence.toJsonItems : List Term → List Json
  | [] => []
  | head :: tail => Term.toJson head :: Sequence.toJsonItems tail

end

/-- A sequence as JSON. -/
def Sequence.toJson (terms : List Term) : Json :=
  .array (Sequence.toJsonItems terms)

/-! ## Reading -/

mutual

/-- Reads a term that may have `depth` levels. -/
def Term.ofJson? : Nat → Json → Option Term
  | depth + 1, .object [(some key, value)] =>
      if key = Term.nameKey then value.text?.map .name
      else if key = Term.literalKey then value.text?.map .literal
      else
        match depth with
        | 0 => none
        | depth + 1 =>
            if key = Term.lamKey then
              match value.record? ["param".toList, "body".toList] with
              | some [some param, some body] => do
                  return .lam (← param.text?) (← Sequence.ofJson? depth body)
              | _ => none
            else if key = Term.defineKey then
              match value.record? ["name".toList, "body".toList] with
              | some [some name, some body] => do
                  return .define (← name.text?) (← Sequence.ofJson? depth body)
              | _ => none
            else if key = Term.appKey then
              match value.record? ["callee".toList, "args".toList] with
              | some [some callee, some args] => do
                  return .app (← Term.ofJson? depth callee) (← Sequence.ofJson? depth args)
              | _ => none
            else none
  | _, _ => none

/-- Reads a sequence that may have `depth` levels. -/
def Sequence.ofJson? : Nat → Json → Option (List Term)
  | depth + 1, .array items => items.mapM (Term.ofJson? depth)
  | _, _ => none

end

end Splice
