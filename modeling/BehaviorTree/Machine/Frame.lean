import BehaviorTree.Atom
import BehaviorTree.Ordered.Reorder
import BehaviorTree.Status

namespace BehaviorTree

/-- How far an open decider has come. -/
inductive Progress where
  /-- The child at which the sequence would go on in the next tick. -/
  | sequence (reached : Nat)
  | dynamicPriority
  /-- The status to deliver if no child fails. -/
  | concurrent (aggregate : Status)
  deriving DecidableEq, Repr

/-- An open decider. The marks are the numbers of continuations and of launches at its entry, so
that a failure can take back what came after. -/
structure Frame where
  atom : Nat
  stop : Nat
  continuationMark : Nat
  launchMark : Nat
  progress : Progress
  deriving DecidableEq, Repr

namespace Frame

/-- The frame that fills unused storage. -/
def blank : Frame := ⟨0, 0, 0, 0, .dynamicPriority⟩

instance : Inhabited Frame := ⟨blank⟩

/-- The progress of a decider at its entry. -/
def initialProgress (firstChild : Nat) : Rule → Progress
  | .sequence => .sequence firstChild
  | .dynamicPriority => .dynamicPriority
  | .concurrent => .concurrent .success

/-- The frame of a decider at its entry; actions have none. -/
def ofAtom? (index : Nat) (atom : Atom) (firstChild continuationMark launchMark : Nat) :
    Option Frame :=
  match atom with
  | .decider rule stop =>
      some ⟨index, stop, continuationMark, launchMark, initialProgress firstChild rule⟩
  | .immediate _ | .deferred _ _ | .persistent _ => none

/-- The first child stands right after its decider, if 32 bits hold its index. -/
def firstChild (frame : Frame) : Checked Nat :=
  if frame.atom + 1 < Word.bound32 then .ok (frame.atom + 1) else .error .indexOverflow

def hasChildren (frame : Frame) : Checked Bool := do
  return decide ((← frame.firstChild) < frame.stop)

/-- What the decider delivers once it visits no more children, given what the last one delivered. -/
def result (frame : Frame) (child : Status) : Status :=
  match frame.progress with
  | .concurrent aggregate => if child = .fail then child else aggregate
  | .sequence _ | .dynamicPriority => child

/-- While no decider is open, continuations park in the storage of the frames. -/
instance : Ordered.Parking (Entry Nat) Frame where
  parkIn _ entry := { blank with atom := entry.atom, progress := .sequence entry.value }
  parked frame :=
    ⟨frame.atom,
      match frame.progress with
      | .sequence reached => reached
      | .dynamicPriority | .concurrent _ => 0⟩

instance : Ordered.LawfulParking (Entry Nat) Frame := ⟨fun _ _ => rfl⟩

end Frame

end BehaviorTree
