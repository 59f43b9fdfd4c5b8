import Quill.Main
import Quill.Proofs.Grammar.Recovery
import Quill.Proofs.Lexeme.Tiling
import Quill.Proofs.Typing.Program
import Quill.Session
import Quill.Proofs.Typing.Unread
import Quill.Proofs.Lexeme.Layout
import Quill.Proofs.Tree.Source
import Quill.Proofs.Tree.RoundTrip
import Quill.Proofs.Grammar.Completion
import Quill.Proofs.Grammar.FirstError
import Quill.Proofs.Compilation.Phases
import Quill.Proofs.Grammar.Comments
import Quill.Proofs.Grammar.Unplaced
import Quill.Proofs.Typing.Unplaced
import Quill.Proofs.Compilation.Layout
import Quill.Proofs.Text.Lines
import Quill.Proofs.Report.Excerpt
import Quill.Proofs.Lexeme.Origin
import Quill.Proofs.Typing.Blame
import Quill.Proofs.Compilation.Pointing
import Quill.Proofs.Tree.SourceOrder
import Quill.Proofs.Typing.Pieces
import Quill.Proofs.Typing.Containment
import Quill.Proofs.Typing.Findings
import Quill.Proofs.Typing.Growth
import Quill.Proofs.Grammar.Pieces
import Quill.Proofs.Lexeme.Pieces
import Quill.Proofs.Lexeme.Munch
import Quill.Proofs.Lexeme.Faults
import Quill.Proofs.Tree.Nodes
import Quill.Proofs.Grammar.Runs
import Quill.Proofs.Grammar.EndMark
import Quill.Proofs.Compilation.Guards
import Quill.Proofs.Text.EditDistance
import Quill.Proofs.Text.Similar
import Quill.Proofs.Typing.Names
import Quill.Proofs.Typing.Agreement
import Quill.Proofs.Typing.Renaming
import Quill.Proofs.Typing.Exchange
import Quill.Proofs.Typing.Suggestions
import Quill.Proofs.Lexeme.DigitRun
import Quill.Proofs.Grammar.Range
import Quill.Proofs.Tree.Legible
import Quill.Proofs.Report.Window
import Quill.Proofs.Report.Colour
import Quill.Proofs.Lexeme.Recording
import Quill.Proofs.Grammar.Recording
import Quill.Proofs.Typing.Recording
import Quill.Proofs.Compilation.Frame
import Quill.Proofs.Typing.History
import Quill.Proofs.Grammar.Progress
import Quill.Proofs.Report.History
