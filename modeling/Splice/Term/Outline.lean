import Splice.Term.Basic
import Splice.Text.Layout
import Splice.Text.Quoted

/-!
# Outlines

The outline of a term shows its parts one below the other, four spaces to the
right for every level, with a comma after each part.
-/

namespace Splice

namespace Outline

/-- A part inside its whole: moved to the right and followed by a comma. -/
def part (block : List Text) : List Text :=
  Text.indent 4 (Text.trail [','] block)

/-- A part with a label. -/
def field (label : Text) (block : List Text) : List Text :=
  part (Text.lead (label ++ ": ".toList) block)

/-- A word in parentheses after what it is. -/
def word (kind content : Text) : List Text :=
  (kind ++ ['(']) :: (part [Text.quoted content] ++ [")".toList])

/-- Labelled parts in braces after what they form. -/
def record (kind : Text) (fields : List Text) : List Text :=
  (kind ++ " \x7b".toList) :: (fields ++ ["\x7d".toList])

/-- Parts in brackets, given with their commas. -/
def array (parts : List Text) : List Text :=
  if parts.isEmpty then ["[]".toList] else "[".toList :: (parts ++ ["]".toList])

end Outline

mutual

/-- The lines of the outline of a term. -/
def Term.outline : Term → List Text
  | .name text => Outline.word "Token".toList text
  | .literal raw => Outline.word "Literal".toList raw
  | .lam param body =>
      Outline.record "Func".toList
        (Outline.field "param".toList [Text.quoted param] ++
          Outline.field "body".toList (Outline.array (Sequence.outlineParts body)))
  | .define name body =>
      Outline.record "MacroDef".toList
        (Outline.field "name".toList [Text.quoted name] ++
          Outline.field "body".toList (Outline.array (Sequence.outlineParts body)))
  | .app callee args =>
      Outline.record "Apply".toList
        (Outline.field "callee".toList (Term.outline callee) ++
          Outline.field "args".toList (Outline.array (Sequence.outlineParts args)))

/-- The outlines of the terms of a sequence, each as a part. -/
def Sequence.outlineParts : List Term → List Text
  | [] => []
  | head :: tail => Outline.part (Term.outline head) ++ Sequence.outlineParts tail

end

/-- The lines that show a sequence: the outline of every term, each under a heading
with its number if there are several. -/
def Sequence.overview : List Term → List Text
  | [] => ["(empty)".toList]
  | [single] => single.outline
  | several =>
      several.zipIdx.flatMap fun (term, index) =>
        [] ::
          ("Node ".toList ++ Text.ofNat (index + 1) ++ " (".toList ++ term.kind ++ "):".toList) ::
          term.outline

end Splice
