import BantamJava.Main
import BantamJava.Proofs.Acceptance
import BantamJava.Proofs.ClassRecovery
import BantamJava.Proofs.LexicalFaults
import BantamJava.Proofs.BlockRecovery
import BantamJava.Proofs.MemberRecovery
import BantamJava.Proofs.SourceOrder
import BantamJava.Proofs.OneTokenAhead
import BantamJava.Proofs.Relocation.Basic
import BantamJava.Proofs.Relocation.Grammar
import BantamJava.Proofs.LexicalGrammar
import BantamJava.Proofs.Tiling
import BantamJava.Proofs.Intervals.Basic
import BantamJava.Proofs.Intervals.Grammar
import BantamJava.Proofs.LineBreaks
import BantamJava.Proofs.ReaderPlace
import BantamJava.Proofs.JoinedLines
import BantamJava.Proofs.Spelling
import BantamJava.Proofs.TextLines
import BantamJava.Proofs.TreeText
import BantamJava.Proofs.FileSections
import BantamJava.Proofs.Caret
import BantamJava.Proofs.Reading.Complete
import BantamJava.Proofs.Printing.Basic
import BantamJava.Proofs.Printing.Expr
import BantamJava.Proofs.SimpleStmtRecovery
import BantamJava.Proofs.TreeNodes
import BantamJava.Proofs.Ensures
import BantamJava.Proofs.NearestIf
import BantamJava.Proofs.FailedIfRecovery
import BantamJava.Proofs.Charges
import BantamJava.Proofs.Positions.Phrase
import BantamJava.Proofs.Positions.Nodes
import BantamJava.Proofs.Positions.Program
import BantamJava.Proofs.LiteralUnits
import BantamJava.Proofs.MemberSkipping
import BantamJava.Proofs.Blame
import BantamJava.Proofs.WellFormed
