import Exemplar.CommandLine
import Exemplar.Comment
import Exemplar.Decimal
import Exemplar.Dialect
import Exemplar.Entry
import Exemplar.Envelope
import Exemplar.ErrorSpec
import Exemplar.Eval
import Exemplar.Example
import Exemplar.Fault
import Exemplar.Files
import Exemplar.Form
import Exemplar.Harness
import Exemplar.Instrument
import Exemplar.Json
import Exemplar.Keyed
import Exemplar.Lexeme
import Exemplar.Literate
import Exemplar.Main
import Exemplar.Native
import Exemplar.Native.Compute
import Exemplar.Node
import Exemplar.Options
import Exemplar.Path
import Exemplar.Place
import Exemplar.Position
import Exemplar.Program
import Exemplar.Proofs.BlockComments
import Exemplar.Proofs.ExampleCode
import Exemplar.Proofs.InnerForms
import Exemplar.Proofs.InnerRun
import Exemplar.Proofs.InnerScope
import Exemplar.Proofs.KeptCode
import Exemplar.Proofs.Lexing
import Exemplar.Proofs.LineExamples
import Exemplar.Proofs.ModuleRun
import Exemplar.Proofs.ModuleText
import Exemplar.Proofs.Outline
import Exemplar.Proofs.Places
import Exemplar.Proofs.Recasting
import Exemplar.Proofs.Regions
import Exemplar.Proofs.Scopes
import Exemplar.Proofs.Splicing
import Exemplar.Proofs.TopLevel
import Exemplar.Proofs.Trivia
import Exemplar.Reader
import Exemplar.Report
import Exemplar.Runner
import Exemplar.Store
import Exemplar.Text.Blank
import Exemplar.Text.Bytes
import Exemplar.Text.CaseTable
import Exemplar.Text.Casing
import Exemplar.Text.Lines
import Exemplar.Text.Quoted
import Exemplar.Text.Ranges
import Exemplar.Text.Visible
import Exemplar.Value
import Exemplar.Verdict
import Exemplar.Proofs.Coinciding
import Exemplar.Proofs.QueueOrder
import Exemplar.Proofs.Termination
import Exemplar.Proofs.EnqueuedExamples
import Exemplar.Proofs.CommentBytes
import Exemplar.Proofs.BlockExamples
import Exemplar.Proofs.LiterateText
import Exemplar.Proofs.LiterateExamples
import Exemplar.Proofs.ReadBack
import Exemplar.Proofs.Idempotence
import Exemplar.Proofs.Growth
import Exemplar.Proofs.Unmarked
import Exemplar.Proofs.ConfigurationFaults
import Exemplar.Proofs.LiterateStrings
import Exemplar.Proofs.CommentGrammar
import Exemplar.Proofs.LinePlaces
import Exemplar.Proofs.ExactSplicing
import Exemplar.Proofs.ReportedLines
import Exemplar.Proofs.EscapingExamples
import Exemplar.Proofs.DepthLimits
import Exemplar.Proofs.ExpectedErrors
import Exemplar.Proofs.LiterateComments
import Exemplar.Proofs.ModuleBounds
import Exemplar.Proofs.Slices
import Exemplar.Proofs.CommentSpans
import Exemplar.Proofs.LiterateDeclarations
import Exemplar.Proofs.KnownFunctions
import Exemplar.Proofs.EqualTexts
import Exemplar.Proofs.LexicalScopes
import Exemplar.Proofs.DeepEquality
import Exemplar.Proofs.CanonicalMaps
import Exemplar.Proofs.Spelling
import Exemplar.Proofs.NodeSpans
import Exemplar.Proofs.PrintedForms
import Exemplar.Proofs.FirstFaults
import Exemplar.Proofs.FileAccounts
