import Reckoner.Program.Printer
import Reckoner.Report
import Reckoner.Host.Builtin
import Reckoner.Proofs.Grammar.Derivation
import Reckoner.Proofs.Grammar.Completeness
import Reckoner.Proofs.Grammar.Next
import Reckoner.Proofs.Grammar.Arms
import Reckoner.Proofs.Grammar.Phrases
import Reckoner.Proofs.Grammar.Course
import Reckoner.Proofs.Grammar.Soundness
import Reckoner.Proofs.Grammar.Unambiguity
import Reckoner.Proofs.Grammar.Acceptance
import Reckoner.Proofs.Lexing.Seam
import Reckoner.Proofs.Lexing.Words
import Reckoner.Proofs.Number.Exact
import Reckoner.Proofs.Number.Literal
import Reckoner.Proofs.Printing.Chunks
import Reckoner.Proofs.Evaluation.Meaning
import Reckoner.Proofs.Grammar.Places
import Reckoner.Proofs.Printing.Spelling
import Reckoner.Proofs.Evaluation.Calls
import Reckoner.Proofs.Printing.RoundTrip
import Reckoner.Proofs.Printing.Wrapping
import Reckoner.Proofs.Evaluation.Nesting
import Reckoner.Proofs.Printing.Reparse
import Reckoner.Proofs.Grammar.Lookahead
import Reckoner.Proofs.Lexing.Slices
import Reckoner.Proofs.Lexing.Tiling
import Reckoner.Proofs.Grammar.FirstFault
import Reckoner.Proofs.Evaluation.Overflow
import Reckoner.Proofs.Evaluation.Walk
import Reckoner.Proofs.Evaluation.Order
import Reckoner.Proofs.Evaluation.Trace
import Reckoner.Proofs.Source.Image
import Reckoner.Proofs.Lexing.Shift
import Reckoner.Proofs.Source.Sequence
import Reckoner.Proofs.Grammar.Layout
import Reckoner.Proofs.Source.Location
import Reckoner.Proofs.Grammar.Limits
import Reckoner.Proofs.Lexing.Pieces
import Reckoner.Proofs.Source.Relayout
import Reckoner.Proofs.Grammar.Decisive
import Reckoner.Proofs.Evaluation.Visits
import Reckoner.Proofs.Evaluation.Blame
import Reckoner.Proofs.Evaluation.Counter
import Reckoner.Proofs.Evaluation.Reuse
import Reckoner.Proofs.Evaluation.Callers
import Reckoner.Proofs.Evaluation.Untaken
import Reckoner.Proofs.Evaluation.Bindings
import Reckoner.Proofs.Number.Nearest
import Reckoner.Proofs.Number.Radix
import Reckoner.Proofs.Number.Numerals
import Reckoner.Proofs.Number.Bytewise
import Reckoner.Proofs.Number.Readback
import Reckoner.Proofs.Grammar.Unended
import Reckoner.Proofs.Environment.History
import Reckoner.Proofs.Source.Header
import Reckoner.Proofs.Lexing.Substitution
import Reckoner.Proofs.Source.Regrouping
import Reckoner.Proofs.Source.Resequence
import Reckoner.Proofs.Grammar.Refusals
import Reckoner.Proofs.Text.Cuts
import Reckoner.Proofs.Text.Lines
import Reckoner.Proofs.Printing.Quotes
