import Splice.Json.Reader
import Splice.Session.Action
import Splice.Settings.Json
import Splice.Term.Json
import Splice.Term.Outline
import Splice.WordDiff
import Splice.Main
import Splice.Proofs.Reduction.Leftmost
import Splice.Proofs.Reduction.OneRedex
import Splice.Proofs.Text.Comment
import Splice.Proofs.Text.Escape
import Splice.Proofs.Lexeme
import Splice.Proofs.Grammar.Form
import Splice.Proofs.Grammar.Reading
import Splice.Proofs.Grammar.Source
import Splice.Proofs.Grammar.Trace
import Splice.Proofs.Grammar.Formatting
import Splice.Proofs.Grammar.Derivation
import Splice.Proofs.Reduction.Failure
import Splice.Proofs.Reduction.Stuck
import Splice.Proofs.Reduction.Request
import Splice.Proofs.Reduction.Event
import Splice.Proofs.Reduction.Texts
import Splice.Proofs.Session.Log
import Splice.Proofs.Session.Reachable
import Splice.Proofs.Session.Suspension
import Splice.Proofs.Session.Step
import Splice.Proofs.Session.Account
import Splice.Proofs.Session.Course
import Splice.Proofs.Session.Provenance
import Splice.Proofs.Session.Stage
import Splice.Proofs.Session.Schedule
import Splice.Proofs.Session.Driver
import Splice.Proofs.Reduction.NormalForm
import Splice.Proofs.Session.Likeness
import Splice.Proofs.Session.Indifference
import Splice.Proofs.Session.Limit
import Splice.Proofs.Session.Notice
import Splice.Proofs.Console.Tracing
import Splice.Proofs.Reduction.Focus
import Splice.Proofs.Session.Strategy
import Splice.Proofs.Session.Argument
import Splice.Proofs.Session.Priority
import Splice.Proofs.MacroTable
import Splice.Proofs.Reduction.Lookup
import Splice.Proofs.Rank
import Splice.Proofs.Acyclic
import Splice.Proofs.Unfolding
import Splice.Proofs.Session.Supply
import Splice.Proofs.Session.Halting
import Splice.Proofs.Session.Inert
import Splice.Proofs.Session.Preamble
import Splice.Proofs.Session.WriteOnce
import Splice.Proofs.Text.Slice
import Splice.Proofs.Session.Printing
import Splice.Proofs.Span
import Splice.Proofs.Grammar.Fault
import Splice.Proofs.Grammar.Concatenation
import Splice.Proofs.FreeName
import Splice.Proofs.Place
import Splice.Proofs.FreePlace
import Splice.Proofs.Text.Annotation
import Splice.Proofs.Text.Blanking
import Splice.Proofs.Tiling
import Splice.Proofs.Extent
import Splice.Proofs.Rereading
import Splice.Proofs.MacroPlace
