import Propositional.Outline
import Propositional.Panel
import Propositional.Proofs.Grammar.FirstFault
import Propositional.Proofs.Lexicon
import Propositional.Proofs.Naming
import Propositional.Proofs.Meaning
import Propositional.Proofs.Entries
import Propositional.Proofs.Vectors
import Propositional.Proofs.Evaluation
import Propositional.Proofs.Verdict
import Propositional.Proofs.Printing
import Propositional.Proofs.Rows
import Propositional.Proofs.Congruence
import Propositional.Token.Cursor
import Propositional.Drawing.Dot
import Propositional.Drawing.Records
import Propositional.Proofs.Columns
import Propositional.Proofs.Extension
import Propositional.Proofs.Consequence
import Propositional.Proofs.Progress
import Propositional.Proofs.Postfix
import Propositional.Proofs.Digraph.Order
import Propositional.Proofs.Digraph.Reduction
import Propositional.Proofs.Hasse
import Propositional.Proofs.Drawing.Grid
import Propositional.Proofs.History
import Propositional.Proofs.Digraph.Layers
import Propositional.Proofs.Digraph.Places
import Propositional.Proofs.Drawing.Poset
import Propositional.Proofs.Display
import Propositional.Proofs.Coverage
import Propositional.Proofs.Updates
import Propositional.Proofs.Letters
import Propositional.Proofs.Reversal
import Propositional.Proofs.Munch
import Propositional.Proofs.Joining
import Propositional.Proofs.Assignments
import Propositional.Proofs.Headings
import Propositional.Proofs.Registration
import Propositional.Proofs.Drawing.Hover
import Propositional.Proofs.Characters
import Propositional.Proofs.Drawing.Cells
import Propositional.Proofs.Drawing.Dot
import Propositional.Proofs.Drawing.Records
import Propositional.Proofs.Lines
import Propositional.Proofs.Cursor
