import Guion.Main
import Guion.Run.Inspect
import Guion.Tree.Display
import Guion.Proofs.Tree.Positions
import Guion.Proofs.Tree.Discipline
import Guion.Proofs.Tree.Sugar
import Guion.Proofs.Token.Scan
import Guion.Proofs.Token.Extension
import Guion.Proofs.Token.Joined
import Guion.Proofs.Token.Spacing
import Guion.Proofs.Token.Spelling
import Guion.Proofs.Token.Printed
import Guion.Proofs.Token.Partition
import Guion.Proofs.Token.Numbers
import Guion.Proofs.Token.Compact
import Guion.Proofs.Token.Failures
import Guion.Proofs.Number.Nearest
import Guion.Proofs.Number.ReadBack
import Guion.Proofs.Parse.Parallel
import Guion.Proofs.Parse.Productions
import Guion.Proofs.Parse.Unfolding
import Guion.Proofs.Parse.Seam
import Guion.Proofs.Parse.Grammar
import Guion.Proofs.Parse.Lexemes
import Guion.Proofs.Parse.Soundness
import Guion.Proofs.Parse.Completeness
import Guion.Proofs.Parse.Correctness
import Guion.Proofs.Parse.Displayed
import Guion.Proofs.Parse.Covers
import Guion.Proofs.Parse.Contract
import Guion.Proofs.Parse.Outline
import Guion.Proofs.Parse.Placed
import Guion.Proofs.Parse.Promises
import Guion.Proofs.Parse.Rejection
import Guion.Proofs.Parse.Ranges
import Guion.Proofs.Parse.Kinds
import Guion.Proofs.Parse.Invariants
import Guion.Proofs.Parse.Progress
import Guion.Proofs.Run.Fields
import Guion.Proofs.Run.Rules
import Guion.Proofs.Run.Simulation
import Guion.Proofs.Run.Congruence
import Guion.Proofs.Run.Watched
import Guion.Proofs.Run.Restoration
import Guion.Proofs.Run.Frames
import Guion.Proofs.Run.ScopeTree
import Guion.Proofs.Run.Bindings
import Guion.Proofs.Run.Signals
import Guion.Proofs.Run.Calls
import Guion.Proofs.Run.Declarations
import Guion.Proofs.Run.Bounds
import Guion.Proofs.Run.Containment
import Guion.Proofs.Run.Cycles
import Guion.Proofs.Run.Ancestry
import Guion.Proofs.Run.Storing
import Guion.Proofs.Run.Resemblance
import Guion.Proofs.Run.Canonical
import Guion.Proofs.Run.Conversions
import Guion.Proofs.Run.Printing
import Guion.Proofs.Run.Logged
import Guion.Proofs.Run.Visits
import Guion.Proofs.Run.Sparing
import Guion.Proofs.Run.Termination
import Guion.Proofs.Run.Reachability
import Guion.Proofs.Run.Encapsulation
import Guion.Proofs.Run.Moved
import Guion.Proofs.Run.Checked
import Guion.Proofs.Run.Depth
import Guion.Proofs.Run.Desugared
import Guion.Proofs.Run.Transcript
import Guion.Proofs.Run.Accounts
import Guion.Proofs.Report.Caret
import Guion.Proofs.Report.Shape
import Guion.Proofs.Report.Colour
import Guion.Proofs.Session.Layout
import Guion.Proofs.Session.Diagnostics
import Guion.Proofs.Session.Concatenation
import Guion.Proofs.Session.Limit
import Guion.Proofs.Session.Excluded
