import BehaviorTree.Machine.Basic

namespace BehaviorTree

/-- A set of flags, one bit each. -/
structure Flags where
  bits : UInt8
  deriving DecidableEq, Repr

namespace Flags

def none : Flags := ⟨0⟩
def enter : Flags := ⟨1⟩
def leave : Flags := ⟨2⟩

/-- The way down, from a parent to its child. -/
def fromTop : Flags := ⟨4⟩

/-- The way up, from a child to its parent. -/
def fromBottom : Flags := ⟨8⟩
def cancel : Flags := ⟨16⟩

/-- Every flag of the second set is in the first. -/
def contains (flags other : Flags) : Bool := flags.bits &&& other.bits == other.bits

def union (flags other : Flags) : Flags := ⟨flags.bits ||| other.bits⟩

instance : OrOp Flags := ⟨union⟩

end Flags

/-- What a traversal reads and changes, as it stands at one moment. -/
structure Moment (β : Type) where
  machine : Machine
  actor : Actor
  board : β

/-- Something that happens in a tick. -/
inductive Event (β : Type) where
  /-- An immediate action was called. -/
  | called (atom function : Nat) (requested returned : Status)
  /-- A monitor is shown the present moment as an atom is passed. -/
  | noticed (atom : Nat) (flags : Flags) (moment : Moment β)
  | logged (event : LogEvent)

/-- What stays the same throughout a tick. -/
structure Setting (β : Type) where
  shape : Shape β
  time : Time
  /-- Only a monitored tick has notices. -/
  monitored : Bool := false

/-- The present moment of a tick and the trace that led to it. -/
structure Tick (β : Type) extends Moment β where
  trace : Array (Event β) := #[]

namespace Tick
variable {β : Type}

def emit (tick : Tick β) (event : Event β) : Tick β := { tick with trace := tick.trace.push event }

def log (tick : Tick β) (event : LogEvent) : Tick β := tick.emit (.logged event)

/-- The monitor, if there is one, is shown the present moment. -/
def notify (tick : Tick β) (setting : Setting β) (atom : Nat) (flags : Flags) : Tick β :=
  if setting.monitored then tick.emit (.noticed atom flags tick.toMoment) else tick

/-- The machine goes on with a command. -/
def proceed (tick : Tick β) (command : Command) : Tick β :=
  { tick with machine.command := command }

/-- A function is called on behalf of an atom; it may change the blackboard and the seed. -/
def call (tick : Tick β) (setting : Setting β) (atom function : Nat) (action : Action β)
    (requested : Status) : Status × Tick β :=
  let reply := action tick.board tick.actor.seed setting.time requested
  (reply.status,
    { tick with board := reply.board, actor.seed := reply.seed }.emit
      (.called atom function requested reply.status))

/-- The status that the actor remembers of an action is read and passed. -/
def takeOutstanding (tick : Tick β) (atom : Nat) : Checked (Option Status × Tick β) := do
  let entries := tick.actor.outstanding.entries
  let (position, cursor) ← Ordered.take entries atom tick.machine.outstandingCursor
  return (position.bind fun found => entries[found]?.map Entry.value,
    { tick with machine.outstandingCursor := cursor })

/-- The child that the actor remembers of a sequence is read and passed. -/
def takeContinuation (tick : Tick β) (atom : Nat) : Checked (Option Nat × Tick β) := do
  let entries := tick.actor.continuations.entries
  let (position, cursor) ← Ordered.take entries atom tick.machine.continuationCursor
  return (position.bind fun found => entries[found]?.map Entry.value,
    { tick with machine.continuationCursor := cursor })

/-- The slot that belongs to an atom of the shape is found and passed. -/
def takeSlot (tick : Tick β) (setting : Setting β) (atom : Nat) :
    Checked (Option Nat × Tick β) := do
  let (position, cursor) ← Ordered.take setting.shape.slotAtoms atom tick.machine.slotCursor
  return (position, { tick with machine.slotCursor := cursor })

/-- An action is outstanding after this tick. -/
def pushOutstanding (tick : Tick β) (atom : Nat) (status : Status) : Checked (Tick β) := do
  let outstanding ← tick.machine.outstanding.push ⟨atom, status⟩
  return { tick with machine.outstanding := outstanding }

end Tick

end BehaviorTree
