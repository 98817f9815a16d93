import BehaviorTree.Machine.Tick
import BehaviorTree.Ordered.Search

/-!
Deciders only widen the pending span; what lies in it is canceled right before the next node is
visited, or at the end of the tick.
-/

namespace BehaviorTree

/-- An outstanding action in the pending span, and whether it needs a cancel. -/
structure Candidate where
  atom : Nat
  cancels : Bool
  deriving DecidableEq, Repr

namespace Candidate
variable {β : Type}

/-- What this tick left outstanding needs a cancel, except a launch of a deferred action: that
request has been taken back already. -/
def ofTick (shape : Shape β) (entry : Entry Status) : Candidate :=
  ⟨entry.atom,
    match entry.value with
    | .running => true
    | .launch => !((shape.atom? entry.atom).any Atom.isDeferred)
    | .success | .fail | .cancel => false⟩

/-- What was outstanding before needs a cancel if it is active. -/
def ofActor (entry : Entry Status) : Candidate := ⟨entry.atom, entry.value.isActive⟩

/-- Both sources, each given in ascending order, as one list with the largest index first; where
both have an index, the actor's comes first. -/
def merge (shape : Shape β) (fresh carried : List (Entry Status)) : List Candidate :=
  List.merge (fresh.map (ofTick shape)).reverse (carried.map ofActor).reverse
    fun fresh carried => decide (carried.atom < fresh.atom)

/-- The atoms that need a cancel. -/
def canceled (candidates : List Candidate) : List Nat :=
  (candidates.filter Candidate.cancels).map Candidate.atom

end Candidate

namespace Tick
variable {β : Type}

/-- A cancel request for a deferred action is queued. -/
def requestCancel (tick : Tick β) (atom action resource : Nat) : Checked (Tick β) := do
  let requests ← tick.machine.requests.pushCancel ⟨action, resource, atom⟩
  return { tick with machine.requests := requests }.log (.cancelRequested atom action)

/-- A function is told to cancel; what else it may return is only reported. -/
def callCancel (tick : Tick β) (setting : Setting β) (atom function : Nat) (action : Action β) :
    Tick β :=
  let (returned, tick) := tick.call setting atom function action .cancel
  if returned = .cancel then tick else tick.log (.cancelUnanswered atom returned)

/-- What the cancellation of an atom does. -/
def cancelAtom (tick : Tick β) (setting : Setting β) (atom : Nat) : Atom → Checked (Tick β)
  | .immediate function =>
      match setting.shape.function? function with
      | some action => .ok (tick.callCancel setting atom function action)
      | none => .ok tick
  | .deferred action resource => tick.requestCancel atom action resource
  | .persistent _ => do
      let changes ← tick.machine.changes.push ⟨atom, .cancel⟩
      return { tick with machine.changes := changes }
  | .decider _ _ => .error .deciderCanceled

/-- The atom at an index is canceled; outside the shape there is nothing to cancel. -/
def cancelAt (tick : Tick β) (setting : Setting β) (index : Nat) : Checked (Tick β) :=
  match setting.shape.atom? index with
  | none => .ok (tick.log (.cancelOutside index))
  | some atom => do
      let tick ← (tick.notify setting index (.cancel ||| .enter)).cancelAtom setting index atom
      return tick.notify setting index (.cancel ||| .leave)

/-- Atoms are canceled one after the other. -/
def cancelAll (setting : Setting β) : List Nat → Tick β → Checked (Tick β)
  | [], tick => .ok tick
  | index :: indices, tick => do cancelAll setting indices (← tick.cancelAt setting index)

/-- The pending span is emptied: what lies in it is canceled, what this tick left in it is no longer
outstanding, and what the actor had in it is passed. -/
def drain (tick : Tick β) (setting : Setting β) : Checked (Tick β) := do
  let span := tick.machine.pending
  if span.isEmpty then return tick
  let fresh := tick.machine.outstanding.contents
  let kept := Ordered.partitionPoint fresh fun entry => decide (entry.atom < span.start)
  require ((fresh.drop kept).all fun entry => span.contains entry.atom) .outstandingPastSpan
  let carried := tick.actor.outstanding.entries
  let first := Ordered.advance carried span.start tick.machine.outstandingCursor
  require (decide (first ≤ carried.size)) .outOfBounds
  let reached := carried.drop first
  let passed := Ordered.partitionPoint reached fun entry => decide (entry.atom < span.stop)
  let canceled := Candidate.canceled
    (Candidate.merge setting.shape (fresh.drop kept).toList (reached.take passed).toList)
  let tick ← cancelAll setting canceled
    { tick with
      machine.pending := .empty
      machine.outstandingCursor := first + passed }
  let outstanding ← tick.machine.outstanding.truncate kept
  return { tick with machine.outstanding := outstanding }.log
    (.spanDrained span.start span.stop canceled.length)

end Tick

end BehaviorTree
