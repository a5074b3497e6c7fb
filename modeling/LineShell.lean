import LineShell.Main
import LineShell.Proofs.ShortCircuit
import LineShell.Proofs.ChainGrammar
import LineShell.Proofs.Partition
import LineShell.Proofs.RoundTrip
import LineShell.Proofs.NormalForm
import LineShell.Proofs.Shift
import LineShell.Proofs.Continuation
import LineShell.Proofs.Evaluation
import LineShell.Proofs.Growth
import LineShell.Proofs.Invocation
import LineShell.Proofs.Wiring
import LineShell.Proofs.Account
import LineShell.Proofs.Course
import LineShell.Proofs.SideBySide
import LineShell.Proofs.Composition
import LineShell.Proofs.PlainCopy
import LineShell.Proofs.RawWord
import LineShell.Proofs.WordGrammar
import LineShell.Proofs.Interleaving
import LineShell.Proofs.CursorOwner
import LineShell.Proofs.CursorFree
import LineShell.Proofs.CommandPosition
import LineShell.Proofs.Independence
import LineShell.Proofs.Passage
import LineShell.Proofs.DoubledQuotation
import LineShell.Proofs.CursorInWord
import LineShell.Proofs.InputLines
import LineShell.Proofs.Script
import LineShell.Proofs.FileChanges
import LineShell.Proofs.NextCommand
import LineShell.Proofs.WordStart
import LineShell.Proofs.WordPlaces
import LineShell.Proofs.SelectedWord
import LineShell.Proofs.Statuses
import LineShell.Proofs.OperatorSet
import LineShell.Proofs.FirstFault
import LineShell.Proofs.Lookups
import LineShell.Proofs.EditDistance
import LineShell.Proofs.Suggestions
import LineShell.Proofs.Aliases
import LineShell.Proofs.TextLines
import LineShell.Proofs.SelectedLines
import LineShell.Proofs.PrintedLines
import LineShell.Proofs.IgnoringCase
import LineShell.Proofs.Overlays
import LineShell.Proofs.HistoryRecords
import LineShell.Proofs.FlatScan
import LineShell.Proofs.FlatFields
