import Splice.Text.Basic

/-!
# Layout

A block is a list of lines without their line breaks. Blocks are nested by moving
their lines to the right and by writing on their first or last line.
-/

namespace Splice.Text

/-- Moves the lines of a block to the right. -/
def indent (width : Nat) (block : List Text) : List Text :=
  block.map (List.replicate width ' ' ++ ·)

/-- Writes in front of the first line of a block. -/
def lead (front : Text) : List Text → List Text
  | [] => []
  | first :: rest => (front ++ first) :: rest

/-- Writes after the last line of a block. -/
def trail (back : Text) : List Text → List Text
  | [] => []
  | [last] => [last ++ back]
  | first :: rest => first :: trail back rest

end Splice.Text
