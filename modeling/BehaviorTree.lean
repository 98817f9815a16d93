import BehaviorTree.Actor.Layout
import BehaviorTree.Board.Scripted
import BehaviorTree.Config.Json
import BehaviorTree.Config.Toml
import BehaviorTree.Machine.Run
import BehaviorTree.Shape.Display
import BehaviorTree.Shape.Outline
import BehaviorTree.Proofs.Ordered.Accesses
import BehaviorTree.Proofs.Tick.Interpretation
import BehaviorTree.Proofs.Tick.Traces
import BehaviorTree.Proofs.Run.Requests
import BehaviorTree.Proofs.Run.Sessions
import BehaviorTree.Proofs.Run.WellFormed
import BehaviorTree.Proofs.Run.Slots
import BehaviorTree.Proofs.Run.Resume
import BehaviorTree.Proofs.Tick.Cancellation
import BehaviorTree.Proofs.Tick.Reordering
import BehaviorTree.Proofs.Simulation.Following
import BehaviorTree.Proofs.Simulation.Convoy
import BehaviorTree.Proofs.Tick.Reuse
import BehaviorTree.Proofs.Tick.Chronicle
import BehaviorTree.Proofs.Tick.Ordering
import BehaviorTree.Proofs.Tick.Stepping
import BehaviorTree.Proofs.Tick.Refusal
import BehaviorTree.Proofs.Tick.Monitoring
import BehaviorTree.Proofs.Tree.Construction
import BehaviorTree.Proofs.Actor.Payload
import BehaviorTree.Proofs.Ordered.Criterion
import BehaviorTree.Proofs.Actor.FiniteMap
import BehaviorTree.Proofs.Tick.Draining
import BehaviorTree.Proofs.Tick.Lookups
import BehaviorTree.Proofs.Ordered.Queries
import BehaviorTree.Proofs.Random.Period
import BehaviorTree.Proofs.Tick.Extraction
import BehaviorTree.Proofs.Config.RoundTrip
