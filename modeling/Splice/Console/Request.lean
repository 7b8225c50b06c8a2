import Splice.Console.Command
import Splice.Settings.Basic

/-!
# Requests

The words after a program's name say what is to be done with which file. They are
read from left to right. A word that is the value of an option, and the file, are
checked only when the next argument that is known arrives, or at the end, so that
an argument that is not known at all is reported first.
-/

namespace Splice.Console

/-- What is to be done. -/
inductive Request where
  /-- Run a program. -/
  | run (path : Text) (settings : Settings)
  /-- Run a program and show every step. -/
  | trace (path : Text) (settings : Settings)
  /-- Show the terms of a program, as JSON or as an outline. -/
  | ast (path : Text) (json : Bool)
  /-- Show the words of a program. -/
  | tokens (path : Text)
  /-- Write a program in its plain form. -/
  | format (path : Text)
  deriving DecidableEq

namespace Request

/-- The path of the file that a request is about. -/
def file : Request → Text
  | run path _ | trace path _ | ast path _ | tokens path | format path => path

end Request

/-- Why there is nothing to be done. -/
inductive Usage where
  /-- Nothing is asked for. -/
  | nothingAsked
  /-- Help is asked for. -/
  | help
  /-- The version is asked for. -/
  | version
  /-- There is no such command. -/
  | invalidSubcommand
  /-- An argument is not known. -/
  | unknownArgument
  /-- The file is missing. -/
  | missingArgument
  /-- A value is missing or empty. -/
  | invalidValue
  /-- A value is not a number that fits. -/
  | valueValidation
  /-- A value is given to an option that takes none. -/
  | tooManyValues
  /-- An option is repeated, or two options exclude each other. -/
  | conflict
  deriving DecidableEq

/-! ## The arguments of a command -/

/-- An argument that has been read and not checked yet. -/
inductive Pending where
  /-- The step limit, with its word if there is one. -/
  | limit (word : Option Text)
  /-- The file. -/
  | file (path : Text)
  deriving DecidableEq

/-- The arguments of a command, as far as they have been read. -/
structure Draft where
  switches : List Switch := []
  limit : Option Nat := none
  file : Option Text := none
  pending : Option Pending := none
  deriving DecidableEq

namespace Draft

/-- Sets the step limit, once. -/
def setLimit (draft : Draft) (word : Text) : Except Usage Draft :=
  if draft.limit.isSome then .error .conflict
  else
    match readLimit? word with
    | some limit => .ok { draft with limit := some limit }
    | none => .error .valueValidation

/-- Checks what has not been checked yet. -/
def settle (draft : Draft) : Except Usage Draft :=
  let rest := { draft with pending := none }
  match draft.pending with
  | none => .ok rest
  | some (.limit none) => .error .invalidValue
  | some (.limit (some word)) => rest.setLimit word
  | some (.file path) =>
      if path.isEmpty then .error .invalidValue else .ok { rest with file := some path }

/-- Whether a file has been given. -/
def hasFile (draft : Draft) : Bool :=
  match draft.file, draft.pending with
  | some _, _ => true
  | none, some (.file _) => true
  | none, _ => false

/-- Takes a word as the file. -/
def addFile (draft : Draft) (path : Text) : Except Usage Draft :=
  if draft.hasFile then .error .unknownArgument
  else do
    let draft ← draft.settle
    return { draft with pending := some (.file path) }

/-- Takes a word that is no option: the value of an option that lacks one, or the
file. -/
def addPlain (draft : Draft) (word : Text) : Except Usage Draft :=
  match draft.pending with
  | some (.limit none) => .ok { draft with pending := some (.limit (some word)) }
  | _ => draft.addFile word

/-- Turns a switch on, once. -/
def addSwitch (draft : Draft) (switch : Switch) : Except Usage Draft := do
  let draft ← draft.settle
  if switch = .help then .error .help
  else if switch ∈ draft.switches then .error .conflict
  else return { draft with switches := switch :: draft.switches }

/-- Takes an option with a long name. -/
def addLong (command : Command) (draft : Draft) (name : Text) (value : Option Text) :
    Except Usage Draft :=
  match command.switches.lookup name, value with
  | some switch, none => draft.addSwitch switch
  | some _, some _ => .error .tooManyValues
  | none, _ =>
      if command.runs && name == limitName then do
        let draft ← draft.settle
        match value with
        | some word => draft.setLimit word
        | none => return { draft with pending := some (.limit none) }
      else .error .unknownArgument

/-- Takes short options, of which there is only the one for help. -/
def addShort (draft : Draft) (letters : Text) : Except Usage Draft :=
  match letters with
  | 'h' :: _ => draft.addSwitch .help
  | _ => .error .unknownArgument

/-- Reads the arguments of a command. -/
def read (command : Command) : Draft → List Text → Except Usage Draft
  | draft, [] => draft.settle
  | draft, word :: rest =>
      match Argument.ofWord word with
      | .escape => do (← rest.foldlM addFile draft).settle
      | .long name value => do read command (← draft.addLong command name value) rest
      | .short letters => do read command (← draft.addShort letters) rest
      | .plain word => do read command (← draft.addPlain word) rest

/-- The settings that the arguments ask for. -/
def settings (draft : Draft) : Settings :=
  let defaults : Settings := {}
  { strategy := if Switch.legacy ∈ draft.switches then .legacy else .lazy
    debug := Switch.debug ∈ draft.switches
    trace := Switch.trace ∈ draft.switches
    maxSteps := if Switch.unbounded ∈ draft.switches then none else draft.limit.or defaults.maxSteps
    hollow := if Switch.spaced ∈ draft.switches then .space else .empty }

/-- The request that the arguments of a command make. -/
def request (command : Command) (draft : Draft) : Except Usage Request :=
  if draft.limit.isSome && decide (Switch.unbounded ∈ draft.switches) then .error .conflict
  else
    match draft.file with
    | none => .error .missingArgument
    | some file =>
        match command with
        | .run => .ok (.run file draft.settings)
        | .trace => .ok (.trace file draft.settings)
        | .ast => .ok (.ast file (Switch.json ∈ draft.switches))
        | .tokens => .ok (.tokens file)
        | .format => .ok (.format file)

end Draft

/-! ## The whole command line -/

/-- What a question about commands comes to: help, if the words name a command or the
question itself, and nothing deeper. -/
def explain : List Text → Usage
  | [] => .help
  | [word] =>
      if word = Command.helpName || (Command.names.lookup word).isSome then .help
      else .invalidSubcommand
  | _ => .invalidSubcommand

/-- What a word that is no option comes to after the two dashes, where no command is
expected any more. -/
def afterEscape : List Text → Usage
  | [] => .nothingAsked
  | word :: _ =>
      if word = Command.helpName || (Command.names.lookup word).isSome then .unknownArgument
      else .invalidSubcommand

/-- Reads a command line. -/
def readRequest : List Text → Except Usage Request
  | [] => .error .nothingAsked
  | word :: rest =>
      match Argument.ofWord word with
      | .escape => .error (afterEscape rest)
      | .long name value =>
          if name = "help".toList then
            .error (if value.isSome then .tooManyValues else .help)
          else if name = "version".toList then
            .error (if value.isSome then .tooManyValues else .version)
          else .error .unknownArgument
      | .short letters =>
          match letters with
          | 'h' :: _ => .error .help
          | 'V' :: _ => .error .version
          | _ => .error .unknownArgument
      | .plain word =>
          match Command.names.lookup word with
          | some command => do (← Draft.read command {} rest).request command
          | none => .error (if word = Command.helpName then explain rest else .invalidSubcommand)

end Splice.Console
