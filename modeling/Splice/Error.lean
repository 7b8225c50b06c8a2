import Splice.Lexeme
import Splice.Word

/-!
# Errors

Every failure is given by its cause. A failure to read a program also knows the
program's name and the bytes it complains about. The wording of each cause, its
code, its advice and its label are functions of the cause.
-/

namespace Splice

/-- The deepest nesting of forms that a program may have. -/
def nestingLimit : Nat := 128

/-- What a reader of a program is waiting for inside a form. -/
inductive Expectation where
  /-- The name after the word that opens a definition or function. -/
  | name
  /-- The keyword after the opening word and the name, which tells a definition
  from a function. -/
  | role (opener called : Text)
  /-- The end of a macro definition. -/
  | endOfDefinition
  /-- The end of a function. -/
  | endOfFunction
  /-- The word between callee and arguments. -/
  | endOfCallee
  /-- The end of an application. -/
  | endOfApplication
  deriving DecidableEq

namespace Expectation

/-- An expectation in words. -/
def text : Expectation → Text
  | name => "a name after ".toList ++ Text.backquoted Keyword.opening.spelling
  | role opener called =>
      Text.backquoted Keyword.naming.spelling ++ " or ".toList ++
        Text.backquoted Keyword.binding.spelling ++ " after ".toList ++
        Text.backquoted (opener ++ [' '] ++ called)
  | endOfDefinition =>
      Text.backquoted Keyword.closing.spelling ++ " to close the macro definition".toList
  | endOfFunction =>
      Text.backquoted Keyword.closing.spelling ++ " to close the function".toList
  | endOfCallee =>
      Text.backquoted Keyword.applying.spelling ++ " to end the callee".toList
  | endOfApplication =>
      Text.backquoted Keyword.closing.spelling ++ " to close the application".toList

end Expectation

/-- Why a program cannot be read. -/
inductive ParseFault where
  /-- A word stands where another one is required. -/
  | unexpected (expected : Expectation) (found : Lexeme)
  /-- The program ends inside a form. -/
  | missing (expected : Expectation)
  /-- A macro is given a name that a parameter could have, or a control word. -/
  | illegalMacroName (name : Lexeme)
  /-- A parameter is not made of lowercase letters and underscores. -/
  | illegalParameter (name : Lexeme)
  /-- An application, opened by `opener`, has no callee. -/
  | emptyCallee (opener : Lexeme)
  /-- Words are left over after the program: the first one, and the next few. -/
  | trailing (first : Lexeme) (others : List Lexeme)
  /-- The form opened by `opener` is nested too deep. -/
  | tooDeep (opener : Lexeme)
  deriving DecidableEq

namespace ParseFault

/-- A fault in words. -/
def message : ParseFault → Text
  | unexpected expected found =>
      "expected ".toList ++ expected.text ++ ", found '".toList ++ found.text ++ "'".toList
  | missing expected => "missing ".toList ++ expected.text
  | illegalMacroName name => "illegal macro name '".toList ++ name.text ++ "'".toList
  | illegalParameter name => "illegal parameter name '".toList ++ name.text ++ "'".toList
  | emptyCallee _ => "application has no callee".toList
  | trailing first others =>
      "unexpected trailing tokens: ".toList ++ Text.unwords ((first :: others).map Lexeme.text)
  | tooDeep _ =>
      "forms nested deeper than ".toList ++ Text.ofNat nestingLimit ++ " levels".toList

/-- The last part of a fault's code. -/
def code : ParseFault → Text
  | unexpected _ _ => "unexpected_token".toList
  | missing _ => "missing".toList
  | illegalMacroName _ => "illegal_macro_name".toList
  | illegalParameter _ => "illegal_parameter_name".toList
  | emptyCallee _ => "empty_callee".toList
  | trailing _ _ => "trailing_tokens".toList
  | tooDeep _ => "nesting_too_deep".toList

/-- How to mend a fault. -/
def help? : ParseFault → Option Text
  | missing _ =>
      some ("every ".toList ++ Text.backquoted Keyword.opening.spelling ++ " and ".toList ++
        Text.backquoted Keyword.calling.spelling ++ " form must be closed with ".toList ++
        Text.backquoted Keyword.closing.spelling)
  | illegalMacroName _ =>
      some "macro names must not consist only of lowercase letters and underscores".toList
  | illegalParameter _ =>
      some "parameter names may only contain lowercase letters and underscores".toList
  | tooDeep _ => some "split deeply nested forms into named macros".toList
  | unexpected _ _ | emptyCallee _ | trailing _ _ => none

/-- The remark at the place that a fault complains about. -/
def label : ParseFault → Text
  | unexpected _ _ => "unexpected token".toList
  | missing _ => "input ends here".toList
  | illegalMacroName _ => "defined here".toList
  | illegalParameter _ => "bound here".toList
  | emptyCallee _ =>
      "expected a callee before ".toList ++ Text.backquoted Keyword.applying.spelling
  | trailing _ _ => "not part of any form".toList
  | tooDeep _ => "this form is too deep".toList

/-- The bytes that a fault complains about, in a program of `length` bytes. Where
something is missing this is the empty range at the end. -/
def span (length : Nat) : ParseFault → Span
  | unexpected _ found => found.span
  | missing _ => ⟨length, length⟩
  | illegalMacroName name => name.span
  | illegalParameter name => name.span
  | emptyCallee opener => opener.span
  | trailing first others => ⟨first.span.start, ((first :: others).getLast (by simp)).span.stop⟩
  | tooDeep opener => opener.span

end ParseFault

/-- A failure to read a program, with the program's name and length in bytes. -/
structure ParseError where
  sourceName : Text
  sourceLength : Nat
  fault : ParseFault
  deriving DecidableEq

namespace ParseError

/-- The bytes that an error complains about. -/
def span (error : ParseError) : Span :=
  error.fault.span error.sourceLength

end ParseError

/-- Why a file cannot be read as text. -/
inductive FileFault where
  /-- Nothing has that name. -/
  | missing
  /-- A file stands where a folder is required. -/
  | notFolder
  /-- A folder stands where a file is required. -/
  | isFolder
  /-- The bytes encode no text. -/
  | notText
  deriving DecidableEq

namespace FileFault

/-- A fault in words. -/
def reason : FileFault → Text
  | missing => "No such file or directory (os error 2)".toList
  | notFolder => "Not a directory (os error 20)".toList
  | isFolder => "Is a directory (os error 21)".toList
  | notText => "stream did not contain valid UTF-8".toList

end FileFault

/-- What goes wrong on the side of the host. -/
inductive HostFault where
  /-- A line is needed and there are no more. -/
  | inputClosed
  /-- A file cannot be read. -/
  | unreadable (path : Text) (fault : FileFault)
  /-- A device fails for a reason of its own. -/
  | device (reason : Text)
  deriving DecidableEq

namespace HostFault

/-- A fault in words. -/
def message : HostFault → Text
  | inputClosed =>
      "input closed while the program awaits ".toList ++ Text.backquoted Word.input
  | unreadable path fault => path ++ " (".toList ++ fault.reason ++ ")".toList
  | device reason => reason

end HostFault

/-- A failure to read or run a program. -/
inductive Error where
  /-- The program, or a line that it asked for, cannot be read. -/
  | parse (error : ParseError)
  /-- A macro is defined a second time. -/
  | redefinition (name : Text)
  /-- The callee written as `callee` became `count` terms instead of one. -/
  | calleeNotSingle (callee : Text) (count : Nat)
  /-- A line is offered that was not asked for. -/
  | inputRejected
  /-- The host fails. -/
  | host (fault : HostFault)
  deriving DecidableEq

/-- The three sorts of errors. -/
inductive Category where
  | parse
  | runtime
  | host
  deriving DecidableEq

namespace Error

/-- The sort of an error. -/
def category : Error → Category
  | parse _ => .parse
  | redefinition _ | calleeNotSingle _ _ => .runtime
  | inputRejected | host _ => .host

/-- An error in words. -/
def message : Error → Text
  | parse error => "Parse error: ".toList ++ error.fault.message
  | redefinition name =>
      "Runtime error: macro redefinition '".toList ++ name ++ "'".toList
  | calleeNotSingle callee count =>
      "Runtime error: callee '".toList ++ callee ++ "' must reduce to a single node, got ".toList ++
        Text.ofNat count
  | inputRejected => "Input rejected: the engine is not awaiting input".toList
  | host fault => "I/O error: ".toList ++ fault.message

/-- The code under which an error is documented. -/
def code : Error → Text
  | parse error => "pooplang::parse::".toList ++ error.fault.code
  | redefinition _ => "pooplang::runtime::macro_redefinition".toList
  | calleeNotSingle _ _ => "pooplang::runtime::callee_not_single_node".toList
  | inputRejected => "pooplang::host::input_rejected".toList
  | host _ => "pooplang::host::io".toList

/-- How to mend an error. -/
def help? : Error → Option Text
  | parse error => error.fault.help?
  | redefinition _ => some "a macro name can be defined only once per run".toList
  | calleeNotSingle _ _ => some "a macro used as callee must reduce to a single node".toList
  | inputRejected | host _ => none

end Error

end Splice
