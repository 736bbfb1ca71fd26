import Dataflow.Definition.Load
import Dataflow.Run.Foreground
import Dataflow.Run.Inspect
import Dataflow.Proofs.Nesting
import Dataflow.Proofs.Permit
import Dataflow.Proofs.Launch
import Dataflow.Proofs.Stride
import Dataflow.Proofs.Play
import Dataflow.Proofs.Tree
import Dataflow.Proofs.Lines
import Dataflow.Proofs.Hearing
import Dataflow.Proofs.Toil
import Dataflow.Proofs.Standstill
import Dataflow.Proofs.Firing
import Dataflow.Proofs.Grammar
import Dataflow.Proofs.Checks
import Dataflow.Proofs.Built
import Dataflow.Proofs.Acceptance
import Dataflow.Proofs.Cargo
import Dataflow.Proofs.Crew
import Dataflow.Proofs.Smooth
import Dataflow.Proofs.Settling
import Dataflow.Proofs.Workshop
import Dataflow.Proofs.Completion
import Dataflow.Proofs.Diagnosis
import Dataflow.Proofs.Rejection
import Dataflow.Proofs.Traffic
import Dataflow.Proofs.Chronicle
import Dataflow.Proofs.Ledger
import Dataflow.Proofs.Determinacy
import Dataflow.Proofs.Verdict
import Dataflow.Proofs.Starvation
import Dataflow.Proofs.Doomed
import Dataflow.Proofs.Lineage
import Dataflow.Proofs.Blame
import Dataflow.Proofs.Errand
import Dataflow.Proofs.Boundary
import Dataflow.Proofs.Inline
import Dataflow.Proofs.Closing
import Dataflow.Proofs.Equivalence
import Dataflow.Proofs.Conformity
import Dataflow.Proofs.Scope
import Dataflow.Proofs.Starting
import Dataflow.Proofs.Bench
import Dataflow.Proofs.Fixpoint
import Dataflow.Proofs.Joining
import Dataflow.Proofs.Publication
import Dataflow.Proofs.Seclusion
import Dataflow.Proofs.Replica
import Dataflow.Proofs.Interpretation
import Dataflow.Proofs.Base64
import Dataflow.Proofs.Conversion
import Dataflow.Proofs.Precedence
import Dataflow.Proofs.Entries
import Dataflow.Proofs.FirstFault
