import Peg.Main
import Peg.Proofs.Choice.Bracketing
import Peg.Proofs.Depth.Extent
import Peg.Proofs.Depth.Height
import Peg.Proofs.Depth.Level
import Peg.Proofs.Depth.Limit
import Peg.Proofs.Description.Recursion
import Peg.Proofs.Diagnosis
import Peg.Proofs.Expression.Program
import Peg.Proofs.Greetings
import Peg.Proofs.Ledger.Balance
import Peg.Proofs.Lifecycle.Operations
import Peg.Proofs.Lifecycle.Sessions
import Peg.Proofs.Lifecycle.Soundness
import Peg.Proofs.LineColumn
import Peg.Proofs.Messages
import Peg.Proofs.Nesting.Isolation
import Peg.Proofs.Nesting.Pure
import Peg.Proofs.Relabelling.Bare
import Peg.Proofs.Relabelling.Blind
import Peg.Proofs.Relabelling.Noninterference
import Peg.Proofs.Releasing.Passes
import Peg.Proofs.Repetition.Bounds
import Peg.Proofs.Repetition.Counted
import Peg.Proofs.Repetition.Greedy
import Peg.Proofs.Run.Simulation
import Peg.Proofs.Semantics.Adequacy
import Peg.Proofs.Sharing.Aloof
import Peg.Proofs.Sharing.Bisimilar
import Peg.Proofs.Sharing.Invisible
import Peg.Proofs.Teardown.Order
import Peg.Proofs.Teardown.Retried
import Peg.Proofs.Teardown.Stopped
import Peg.Proofs.Teardown.Watched
import Peg.Proofs.TextPreservation
import Peg.Proofs.Tracing
import Peg.Proofs.Translation
import Peg.Proofs.Unwinding
import Peg.Proofs.Walk.Interleaved
import Peg.Proofs.Walk.Preorder
import Peg.Proofs.Walk.Pulls
import Peg.Session.Step
