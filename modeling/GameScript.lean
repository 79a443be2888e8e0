import GameScript.Batch
import GameScript.Issue
import GameScript.Proofs.Parentheses
import GameScript.Proofs.Script
import GameScript.Sink
import GameScript.Text.Utf8
import GameScript.Proofs.Printing
import GameScript.Proofs.Else
import GameScript.Proofs.StmtRewriting
import GameScript.Proofs.Layout
import GameScript.Proofs.StmtText
import GameScript.Proofs.Parsed
import GameScript.Proofs.ScriptLayout
import GameScript.Proofs.ScriptText
import GameScript.Proofs.Reprinting
import GameScript.Proofs.RoundTrip
import GameScript.Proofs.Lowering
import GameScript.Proofs.DanglingElse
import GameScript.Proofs.Backtracking
import GameScript.Proofs.Safety
import GameScript.Proofs.Yield
import GameScript.Proofs.Conservation
import GameScript.Proofs.Rescanning
import GameScript.Proofs.Comments
import GameScript.Proofs.Joining
import GameScript.Proofs.Interleaving
import GameScript.Proofs.Occurrence
import GameScript.Proofs.Respelling
import GameScript.Proofs.LongestMatch
import GameScript.Proofs.NumeralGrammar
import GameScript.Proofs.NumeralReading
import GameScript.Proofs.Quoting
import GameScript.Proofs.LineEndings
import GameScript.Proofs.LineBreaks
import GameScript.Proofs.Rounding
import GameScript.Proofs.Radix
import GameScript.Proofs.Navigation
import GameScript.Proofs.Checks
import GameScript.Proofs.Nesting
import GameScript.Proofs.Command
import GameScript.Proofs.CommandText
import GameScript.Proofs.Prologue
import GameScript.Proofs.Hygiene
import GameScript.Proofs.Notes
import GameScript.Proofs.Gaps
import GameScript.Proofs.Margins
import GameScript.Proofs.Words
import GameScript.Proofs.Indentation
import GameScript.Proofs.Recursion
import GameScript.Proofs.Progress
import GameScript.Proofs.Termination
