import BehaviorTree.Ordered.Search
import BehaviorTree.Shape

namespace BehaviorTree

/-- A finite map from atoms to values with a limited number of entries. The entries ascend by the
atoms and stand at the front of the storage; the values behind them are stale. -/
structure SparseStates (ν : Type) where
  entries : Array (Entry ν)
  stale : Array (Entry ν)

namespace SparseStates
variable {ν : Type}

def capacity (states : SparseStates ν) : Nat := states.entries.size + states.stale.size

theorem fits (states : SparseStates ν) : states.entries.size ≤ states.capacity :=
  Nat.le_add_right _ _

/-- Storage without entries whose values are all the fill value. -/
def empty (capacity : Nat) (fill : ν) : SparseStates ν := ⟨#[], Array.replicate capacity ⟨0, fill⟩⟩

def count (states : SparseStates ν) : Nat := states.entries.size

def atoms (states : SparseStates ν) : List Nat := states.entries.toList.map Entry.atom

/-- The value that belongs to an atom. -/
def find? (states : SparseStates ν) (atom : Nat) : Option ν :=
  match Ordered.searchKey states.entries atom with
  | .found position => states.entries[position]?.map Entry.value
  | .missing _ => none

/-- The value of an atom is replaced, or inserted in order while there is room. -/
def merge? (states : SparseStates ν) (atom : Nat) (value : ν) : Option (SparseStates ν) :=
  match Ordered.searchKey states.entries atom with
  | .found position =>
      some { states with entries := states.entries.setIfInBounds position ⟨atom, value⟩ }
  | .missing position =>
      if states.count < states.capacity then
        some { entries := states.entries.insertIdxIfInBounds position ⟨atom, value⟩
               stale := states.stale.drop 1 }
      else none

/-- The entry of an atom is removed, if there is one. Those behind it move up, and the last one
leaves a stale value. -/
def remove? (states : SparseStates ν) (atom : Nat) : Option (SparseStates ν) :=
  match Ordered.searchKey states.entries atom with
  | .found position =>
      some { entries := states.entries.eraseIdxIfInBounds position
             stale := states.entries.drop (states.count - 1) ++ states.stale }
  | .missing _ => none

/-- Entries are written over the storage from its front. -/
def overwrite (states : SparseStates ν) (entries : Array (Entry ν)) : SparseStates ν :=
  ⟨entries, (states.entries ++ states.stale).drop entries.size⟩

/-- The entries are replaced as a whole, if they fit. -/
def replace? (states : SparseStates ν) (entries : Array (Entry ν)) : Option (SparseStates ν) :=
  if entries.size ≤ states.capacity then some (states.overwrite entries) else none

def clear (states : SparseStates ν) : SparseStates ν := ⟨#[], states.entries ++ states.stale⟩

/-- The entries ascend strictly. -/
def isAscending (states : SparseStates ν) : Bool := decide (Ascending states.entries.toList)

end SparseStates

/-- The state of one agent between ticks. -/
structure Actor where
  id : Nat
  /-- The handle under which the agent's blackboard is found. -/
  handle : UInt64
  seed : Seed
  /-- The statuses of the persistent actions. -/
  slots : Array Status
  /-- The children at which running sequences go on. -/
  continuations : SparseStates Nat
  /-- The statuses of the outstanding actions. -/
  outstanding : SparseStates Status

/-- Why an actor cannot be changed as asked. -/
inductive ActorError where
  | noRoom (actor count atom : Nat)
  | slotOutOfRange (actor slot slots : Nat)
  deriving DecidableEq, Repr

def ActorError.message : ActorError → String
  | .noRoom actor count atom =>
      s!"actor {actor}: action state buffer full ({count}) while merging atom {atom}"
  | .slotOutOfRange actor slot slots =>
      s!"actor {actor}: persistent slot {slot} out of range ({slots} slots)"

namespace Actor

/-- The status that a slot starts with. -/
def initialSlot : Status := .fail

/-- An idle actor with given room. -/
def withRoom (id slots continuations outstanding : Nat) : Actor where
  id := id
  handle := 0
  seed := 0
  slots := Array.replicate slots initialSlot
  continuations := .empty continuations 0
  outstanding := .empty outstanding .fail

/-- An idle actor with the room that is asked for. -/
def forNeeds (id : Nat) (needs : Capacities) : Actor :=
  withRoom id needs.slots needs.continuations needs.outstanding

/-- An idle actor for a shape. -/
def forShape {β : Type} (id : Nat) (shape : Shape β) : Actor := forNeeds id shape.needs

/-- No sequence remembers a child and no action is outstanding. -/
def isIdle (actor : Actor) : Bool :=
  actor.continuations.count == 0 && actor.outstanding.count == 0

/-- The actor has a slot for each persistent action and room for all other state. -/
def supports (actor : Actor) (needs : Capacities) : Bool :=
  actor.slots.size == needs.slots &&
    decide (needs.continuations ≤ actor.continuations.capacity) &&
    decide (needs.outstanding ≤ actor.outstanding.capacity)

/-- A status that was reported from outside is taken as it comes. -/
def merge (actor : Actor) (atom : Nat) (status : Status) : Except ActorError Actor :=
  match actor.outstanding.merge? atom status with
  | some outstanding => .ok { actor with outstanding }
  | none => .error (.noRoom actor.id actor.outstanding.count atom)

/-- What is reported when a status was merged. -/
def mergeReport (actor : Actor) (atom : Nat) (status : Status) : LogEvent :=
  .statusMerged actor.id atom status

/-- The entry of an atom is dropped; the answer tells whether there was one. -/
def remove (actor : Actor) (atom : Nat) : Bool × Actor :=
  match actor.outstanding.remove? atom with
  | some outstanding => (true, { actor with outstanding })
  | none => (false, actor)

def setSlot (actor : Actor) (slot : Nat) (status : Status) : Except ActorError Actor :=
  if inside : slot < actor.slots.size then
    .ok { actor with slots := actor.slots.set slot status inside }
  else .error (.slotOutOfRange actor.id slot actor.slots.size)

/-- All sparse state is forgotten; the slots stay. -/
def clear (actor : Actor) : Actor :=
  { actor with
    continuations := actor.continuations.clear
    outstanding := actor.outstanding.clear }

/-- Both sparse arrays ascend strictly. -/
def isAscending (actor : Actor) : Bool :=
  actor.continuations.isAscending && actor.outstanding.isAscending

end Actor

end BehaviorTree
