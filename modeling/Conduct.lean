import Conduct.Proofs.Acceptance
import Conduct.Proofs.Cancellation
import Conduct.Proofs.Census
import Conduct.Proofs.CleanRuns
import Conduct.Proofs.Cloning
import Conduct.Proofs.Concord
import Conduct.Proofs.Duality
import Conduct.Proofs.Effects
import Conduct.Proofs.Equipment
import Conduct.Proofs.Faults
import Conduct.Proofs.Flags
import Conduct.Proofs.Measuring
import Conduct.Proofs.Ordering
import Conduct.Proofs.Overflow
import Conduct.Proofs.Path.Margins
import Conduct.Proofs.Rereading
import Conduct.Proofs.Repetition
import Conduct.Proofs.Repetition.Carryover
import Conduct.Proofs.Scheduling
import Conduct.Proofs.Shelter
import Conduct.Proofs.Survival
import Conduct.Proofs.TimeBudget
import Conduct.Proofs.Transparency
import Conduct.Proofs.Traversal
import Conduct.Proofs.Verdict
import Conduct.Record.Candidate
import Conduct.Record.Yaml
import Conduct.Rehearsal.Step
import Conduct.RootedTree
import Conduct.Tree.Snapshot
import Conduct.Tree.Stats
import Conduct.Tree.Unfolding
