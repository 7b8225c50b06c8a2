import Splice.Text.Basic

/-!
# Commands and the words of a command line

Each command has a name and the options that it takes. A word of a command line is
told apart by its dashes: an option with a long name, short options, or a plain
word.
-/

namespace Splice.Console

/-- The commands. -/
inductive Command where
  | run
  | trace
  | ast
  | tokens
  | format
  deriving DecidableEq

/-- The options without a value. -/
inductive Switch where
  /-- Reduce arguments before they are substituted. -/
  | legacy
  /-- Log every contraction. -/
  | debug
  /-- Log the program before every step. -/
  | trace
  /-- Set no step limit. -/
  | unbounded
  /-- Let a hollow literal print a space. -/
  | spaced
  /-- Write JSON. -/
  | json
  /-- Ask for help. -/
  | help
  deriving DecidableEq

namespace Command

/-- The commands by their names. -/
def names : List (Text × Command) :=
  [("run".toList, run), ("trace".toList, trace), ("ast".toList, ast), ("tokens".toList, tokens),
    ("format".toList, format)]

/-- The name of the command that explains the others. -/
def helpName : Text := "help".toList

/-- Whether a command takes the options of a run. -/
def runs (command : Command) : Bool :=
  command = run || command = trace

/-- The switches of a command by their names. -/
def switches (command : Command) : List (Text × Switch) :=
  ("help".toList, Switch.help) ::
    match command with
    | run | trace =>
        [("legacy".toList, .legacy), ("debug".toList, .debug), ("trace".toList, .trace),
          ("unbounded".toList, .unbounded), ("poop-space".toList, .spaced)]
    | ast => [("json".toList, .json)]
    | tokens | format => []

end Command

/-- The name of the option that sets the step limit. -/
def limitName : Text := "max-steps".toList

/-! ## Words -/

/-- A word of a command line, by its form. -/
inductive Argument where
  /-- The two dashes after which no word is an option. -/
  | escape
  /-- An option with a name and perhaps a value after an equals sign. -/
  | long (name : Text) (value : Option Text)
  /-- A dash and the letters of short options. -/
  | short (letters : Text)
  /-- Any other word; a single dash is one. -/
  | plain (word : Text)
  deriving DecidableEq

namespace Argument

/-- The form of a word. -/
def ofWord : Text → Argument
  | ['-', '-'] => escape
  | '-' :: '-' :: rest =>
      match rest.span (· ≠ '=') with
      | (name, []) => long name none
      | (name, _ :: value) => long name (some value)
  | ['-'] => plain ['-']
  | '-' :: letters => short letters
  | word => plain word

end Argument

/-- The greatest step limit. -/
def greatestLimit : Nat := 18446744073709551615

/-- Reads a step limit: digits, perhaps after a plus sign. -/
def readLimit? (word : Text) : Option Nat :=
  let digits := match word with
    | '+' :: rest => rest
    | _ => word
  if !digits.isEmpty && digits.all Char.isDigit then
    let value := digits.foldl (fun value digit => value * 10 + (digit.toNat - '0'.toNat)) 0
    if value ≤ greatestLimit then some value else none
  else none

end Splice.Console
