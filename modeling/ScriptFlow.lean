import ScriptFlow.Analysis
import ScriptFlow.Graph.LinearPath
import ScriptFlow.Proofs.Flow
import ScriptFlow.Proofs.Descent
import ScriptFlow.Proofs.LinearPath
import ScriptFlow.Proofs.Queries
import ScriptFlow.Proofs.Stage
import ScriptFlow.Proofs.Growth
import ScriptFlow.Proofs.Shape
import ScriptFlow.Proofs.Linking
import ScriptFlow.Proofs.Resolution
import ScriptFlow.Proofs.Audit
import ScriptFlow.Proofs.Consistency
import ScriptFlow.Proofs.Partition
import ScriptFlow.Proofs.Walks
import ScriptFlow.Proofs.Outcome
import ScriptFlow.Proofs.Relabelling
import ScriptFlow.Proofs.Passes
import ScriptFlow.Proofs.Relinking
import ScriptFlow.Proofs.Coherence
import ScriptFlow.Proofs.DeadEdge
import ScriptFlow.Proofs.Retagging
import ScriptFlow.Proofs.Incoming
import ScriptFlow.Proofs.Neighbours
import ScriptFlow.Proofs.Relocation
import ScriptFlow.Proofs.Isolation
import ScriptFlow.Proofs.Retry
import ScriptFlow.Proofs.Preorder
import ScriptFlow.Proofs.Coverage
import ScriptFlow.Proofs.Unreached
import ScriptFlow.Proofs.Tampering
import ScriptFlow.Proofs.Marking
import ScriptFlow.Proofs.Adjacency
import ScriptFlow.Proofs.Discovery
import ScriptFlow.Proofs.Duality
import ScriptFlow.Proofs.Worklist
import ScriptFlow.Proofs.Backlog
import ScriptFlow.Proofs.Options
