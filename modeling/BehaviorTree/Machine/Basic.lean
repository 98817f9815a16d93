import BehaviorTree.Actor
import BehaviorTree.Machine.Frame
import BehaviorTree.Machine.Request
import BehaviorTree.Ordered.Cursor
import BehaviorTree.Storage.Buffer

namespace BehaviorTree

/-- The indices from `start` up to, but without, `stop`. -/
structure Span where
  start : Nat
  stop : Nat
  deriving DecidableEq, Repr

namespace Span

def empty : Span := ⟨0, 0⟩

def isEmpty (span : Span) : Bool := decide (span.stop ≤ span.start)

def contains (span : Span) (index : Nat) : Bool :=
  decide (span.start ≤ index) && decide (index < span.stop)

/-- The smallest span that covers both; an empty span adds nothing and is replaced. -/
def cover (span other : Span) : Span :=
  if other.isEmpty then span
  else if span.isEmpty then other
  else ⟨min span.start other.start, max span.stop other.stop⟩

@[simp] theorem isEmpty_empty : empty.isEmpty = true := rfl

theorem isEmpty_iff (span : Span) : span.isEmpty = true ↔ span.stop ≤ span.start := by
  simp [isEmpty]

theorem contains_iff (span : Span) (index : Nat) :
    span.contains index = true ↔ span.start ≤ index ∧ index < span.stop := by
  simp [contains]

end Span

/-- The scratch memory of a traversal. A machine is sized once and serves any number of actors one
after the other; what a tick asks of deferred actions stays queued until it is extracted. -/
structure Machine where
  capacities : Capacities
  command : Command
  /-- What the node that was visited last delivered. -/
  status : Status
  /-- The atom to visit next. -/
  cursor : Nat
  /-- How far the actor's continuations have been scanned. -/
  continuationCursor : Nat
  /-- How far the actor's outstanding actions have been scanned. -/
  outstandingCursor : Nat
  /-- How far the slots of the shape have been scanned. -/
  slotCursor : Nat
  /-- The open deciders, innermost on top. -/
  frames : Buffer Frame
  /-- The span whose outstanding actions are to be canceled. -/
  pending : Span
  /-- The continuations of this tick, in the order in which sequences were left. -/
  continuations : Buffer (Entry Nat)
  /-- The outstanding actions of this tick, in the order of their visits. -/
  outstanding : Buffer (Entry Status)
  /-- The changes of slots in this tick. -/
  changes : Buffer (Entry Status)
  requests : RequestQueue
  /-- Storage for the reorder of the changes. -/
  changeScratch : Array (Entry Status)

/-- Why a machine does not do as asked. -/
inductive MachineError where
  | machineTooSmall (resource : Resource)
  | actorNotSized (actor : Nat)
  | stopped (actor cursor : Nat)
  | noBoard (actor : Nat) (handle : UInt64)
  | requestsDoNotFit (room count : Nat)
  deriving DecidableEq, Repr

def MachineError.message : MachineError → String
  | .machineTooSmall resource =>
      s!"vm is too small for shape: {resource.name} below the shape's requirement"
  | .actorNotSized actor => s!"actor {actor} is not sized for this shape"
  | .stopped actor cursor => s!"traversal of actor {actor} stopped at atom {cursor}"
  | .noBoard actor handle =>
      s!"no blackboard for actor {actor} (user data 0x" ++
        String.ofList (Nat.toDigits 16 handle.toNat) ++ ")"
  | .requestsDoNotFit room count =>
      s!"request buffer holds {room} entries but {count} requests are queued"

namespace Machine
variable {β : Type}

/-- A machine with given capacities. -/
def new (capacities : Capacities) : Machine where
  capacities := capacities
  command := .done
  status := .fail
  cursor := 0
  continuationCursor := 0
  outstandingCursor := 0
  slotCursor := 0
  frames := .empty capacities.frames .blank
  pending := .empty
  continuations := .empty capacities.continuations ⟨0, 0⟩
  outstanding := .empty capacities.outstanding ⟨0, .fail⟩
  changes := .empty capacities.slotChanges ⟨0, .fail⟩
  requests := .empty capacities.requests
  changeScratch := Array.replicate capacities.slotChanges ⟨0, .fail⟩

/-- A machine for exactly one shape. -/
def forShape (shape : Shape β) : Machine := new shape.needs

/-- A machine set up from a configuration. -/
def ofConfig (config : Config) : Machine := new config.capacities

/-- What is reported when a machine is set up: a configuration with a label shows. -/
def configReport (config : Config) : List LogEvent :=
  config.label.toList.map .machineConfigured

/-- The machine has the capacities that are needed. -/
def supports (machine : Machine) (needs : Capacities) : Bool := machine.capacities.covers needs

/-- All scratch state is dropped, with the requests that were never extracted. -/
def reset (machine : Machine) : Machine :=
  { machine with
    command := .done
    status := .fail
    cursor := 0
    continuationCursor := 0
    outstandingCursor := 0
    slotCursor := 0
    frames := machine.frames.clear
    pending := .empty
    continuations := machine.continuations.clear
    outstanding := machine.outstanding.clear
    changes := machine.changes.clear
    requests := machine.requests.clear }

/-- Both the machine and the actor must have room for the shape. -/
def checkRoom (machine : Machine) (actor : Actor) (shape : Shape β) : Except MachineError Unit :=
  match machine.capacities.shortfall? shape.needs with
  | some resource => .error (.machineTooSmall resource)
  | none => if actor.supports shape.needs then .ok () else .error (.actorNotSized actor.id)

/-- The traversal of a shape begins at its root. -/
def prepareUpdate (machine : Machine) (actor : Actor) (shape : Shape β) :
    Except MachineError Machine := do
  machine.checkRoom actor shape
  return { machine.reset with command := .invoke }

/-- The cancellation of all that is outstanding begins with the whole shape pending. -/
def prepareCancel (machine : Machine) (actor : Actor) (shape : Shape β) :
    Except MachineError Machine := do
  machine.checkRoom actor shape
  return { machine.reset with
    command := .cleanup
    status := .cancel
    pending := Span.empty.cover ⟨0, shape.size⟩ }

/-- The queued requests on behalf of an actor leave the machine. -/
def takeRequests (machine : Machine) (actor : Nat) : List ActorRequest × Machine :=
  (machine.requests.forActor actor, { machine with requests := machine.requests.clear })

/-- The queued requests are appended to a list; the answer is by how many it grows, with the list
afterwards. -/
def appendRequests (machine : Machine) (actor : Nat) (list : List ActorRequest) :
    Nat × List ActorRequest × Machine :=
  let (taken, after) := machine.takeRequests actor
  ((list ++ taken).length - list.length, list ++ taken, after)

/-- The queued requests are written to the front of given room, which must hold them all; the answer
is their number with the room afterwards. -/
def takeRequestsInto (machine : Machine) (actor : Nat) (room : List ActorRequest) :
    Except MachineError (Nat × List ActorRequest × Machine) :=
  if room.length < machine.requests.count then
    .error (.requestsDoNotFit room.length machine.requests.count)
  else
    let (taken, after) := machine.takeRequests actor
    .ok (machine.requests.count, taken ++ room.drop taken.length, after)

/-- The changes go to the slots of their atoms, which are found in one forward scan. -/
def writeChanges (slotAtoms : Array Nat) :
    List (Entry Status) → Nat → Array Status → Checked (Array Status)
  | [], _, slots => .ok slots
  | change :: changes, cursor, slots => do
    let (position, cursor) ← Ordered.take slotAtoms change.atom cursor
    match position with
    | none => throw .missingSlot
    | some slot =>
        if inside : slot < slots.size then
          writeChanges slotAtoms changes cursor (slots.set slot change.value inside)
        else throw .missingSlot

/-- The actor with the state that a finished traversal leaves. -/
def extract (machine : Machine) (shape : Shape β) (actor : Actor) : Checked Actor := do
  require (machine.command == .done) .unfinishedTraversal
  let some continuations := actor.continuations.replace? machine.continuations.contents
    | throw .actorTooSmall
  let some outstanding := actor.outstanding.replace? machine.outstanding.contents
    | throw .actorTooSmall
  let slots ← writeChanges shape.slotAtoms machine.changes.contents.toList 0 actor.slots
  return { actor with continuations, outstanding, slots }

end Machine

end BehaviorTree
