import Splice.Outlet
import Splice.WordDiff

/-!
# Markup

What a console shows is plain text with marks that change its style. On a terminal
without colours the marks leave no trace. Shown text goes to one of two streams.
-/

namespace Splice.Console

/-- The colours in use. -/
inductive Color where
  | red
  | green
  | yellow
  | cyan
  deriving DecidableEq

/-- A colour with its weight. -/
structure Style where
  color : Color
  bold : Bool := false
  dimmed : Bool := false
  deriving DecidableEq

/-- A piece of what is shown. -/
inductive Piece where
  /-- Plain text. -/
  | text (content : Text)
  /-- The text after it has this style. -/
  | style (chosen : Style)
  /-- The text after it has no style. -/
  | reset
  deriving DecidableEq

/-- Where text is shown. -/
inductive Stream where
  | output
  | diagnostics
  deriving DecidableEq

/-- Pieces shown together on one stream. -/
structure Display where
  stream : Stream
  pieces : List Piece
  deriving DecidableEq

namespace Color

/-- The digit of a colour in a control sequence. -/
def digit : Color → Char
  | red => '1'
  | green => '2'
  | yellow => '3'
  | cyan => '6'

end Color

namespace Piece

/-- A control sequence with the given parameter. -/
def control (parameter : Text) : Text :=
  "\x1b[".toList ++ parameter ++ ['m']

/-- A piece as it is sent to a terminal. A style replaces all earlier ones. -/
def render (colored : Bool) : Piece → Text
  | text content => content
  | reset => if colored then control ['0'] else []
  | style chosen =>
      if colored then
        control ['0'] ++ (if chosen.bold then control ['1'] else []) ++
          (if chosen.dimmed then control ['2'] else []) ++ control ['3', chosen.color.digit]
      else []

end Piece

namespace Display

/-- Pieces as they are sent to a terminal. -/
def render (colored : Bool) (display : Display) : Text :=
  display.pieces.flatMap (Piece.render colored)

/-- Lines of plain text. -/
def ofLines (lines : List Text) : Display :=
  ⟨.output, lines.map fun line => .text (line ++ ['\n'])⟩

/-- What came out of a session: printed text as it is, and log lines in a colour that
tells warnings from the rest. -/
def ofEmission : Emission → Display
  | .print text => ⟨.output, [.text text]⟩
  | .log line =>
      let color := if "warning:".toList.isPrefixOf line then Color.yellow else .cyan
      ⟨.diagnostics, [.style { color := color, dimmed := true }, .text (line ++ ['\n']), .reset]⟩

/-- A warning. -/
def warning (message : Text) : Display :=
  ⟨.diagnostics, [.style { color := .yellow, bold := true }, .text "warning:".toList, .reset,
    .text ([' '] ++ message ++ ['\n'])]⟩

/-- The heading of a step. -/
def heading (step : Nat) : List Piece :=
  [.style { color := .yellow, bold := true },
    .text ("--- Step ".toList ++ Text.ofNat step ++ " ---\n".toList), .reset]

/-- A run of words in the colour of what became of it. -/
def ofChange : Change → List Piece
  | .same words => [.reset, .text words]
  | .added words => [.style { color := .green }, .text words]
  | .removed words => [.style { color := .red }, .text words]

/-- The program before the first step. -/
def start (program : Text) : Display :=
  ⟨.output, heading 0 ++ [.text (program ++ ['\n'])]⟩

/-- What a step did to the text of a program. -/
def step (number : Nat) (earlier later : Text) : Display :=
  ⟨.output, heading number ++
    [Piece.text [' ']].intercalate ((earlier.changes later).map ofChange) ++
    [.reset, .text ['\n']]⟩

end Display

end Splice.Console
