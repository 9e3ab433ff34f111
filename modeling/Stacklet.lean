import Stacklet.Main
import Stacklet.Sandbox.Machine
import Stacklet.Proofs.Assembly.OfWords
import Stacklet.Proofs.Assembly.OfTree
import Stacklet.Proofs.Tree.Parsing
import Stacklet.Proofs.Assembly.Emission
import Stacklet.Proofs.Assembly.Drafts
import Stacklet.Proofs.Assembly.Jumps
import Stacklet.Proofs.Assembly.Agreement
import Stacklet.Proofs.Tree.Derivations
import Stacklet.Proofs.Tree.ExpressionHeight
import Stacklet.Proofs.Tree.StatementNesting
import Stacklet.Proofs.Token.Cuts
import Stacklet.Proofs.Token.Items
import Stacklet.Proofs.Token.Offsets
import Stacklet.Proofs.Token.Partition
import Stacklet.Proofs.Token.Lexemes
import Stacklet.Proofs.Tree.Forms
import Stacklet.Proofs.Tree.Tracking
import Stacklet.Proofs.Tree.ErrorPlaces
import Stacklet.Proofs.Number.Rounding
import Stacklet.Proofs.Assembly.Constants
import Stacklet.Proofs.Assembly.Processor
import Stacklet.Proofs.Assembly.Printing
import Stacklet.Proofs.Cli.Attempts
import Stacklet.Proofs.Cli.Delivery
import Stacklet.Proofs.Tree.Lockstep
import Stacklet.Proofs.Tree.LockstepRules
import Stacklet.Proofs.Tree.Layout
import Stacklet.Proofs.Assembly.Layout
import Stacklet.Proofs.Tree.Partings
import Stacklet.Proofs.Tree.Loops
import Stacklet.Proofs.Tree.Expansion
import Stacklet.Proofs.Word.Patching
import Stacklet.Proofs.Word.Faults
import Stacklet.Proofs.Word.Splitting
import Stacklet.Proofs.Token.Counting
import Stacklet.Assembly.Output
import Stacklet.Proofs.Assembly.Output
import Stacklet.Proofs.Assembly.Unsupported
import Stacklet.Proofs.Word.RoundTrip
import Stacklet.Proofs.Token.LongestMatch
import Stacklet.Proofs.Token.Escapes
import Stacklet.Proofs.Report.Underlining
import Stacklet.Proofs.Source.Positions
import Stacklet.Proofs.Tree.Prefixes
