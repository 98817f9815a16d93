namespace BehaviorTree

/-- A resource that a shape uses up; the order is the one in which shortfalls are looked for. -/
inductive Resource where
  | atoms
  | slots
  | continuations
  | outstanding
  | slotChanges
  | frames
  | requests
  deriving DecidableEq, Repr

namespace Resource

def all : List Resource :=
  [atoms, slots, continuations, outstanding, slotChanges, frames, requests]

/-- The written name of a resource. -/
def name : Resource → String
  | atoms => "shape_atom_count"
  | slots => "persistent_state_count"
  | continuations => "decider_state_capacity"
  | outstanding => "action_state_capacity"
  | slotChanges => "persistent_state_change_capacity"
  | frames => "decider_guard_capacity"
  | requests => "action_request_capacity"

theorem mem_all (resource : Resource) : resource ∈ all := by
  cases resource <;> decide

end Resource

/-- An amount of each resource. -/
structure Capacities where
  /-- The atoms of the shape. -/
  atoms : Nat := 0
  /-- The slots of persistent actions. -/
  slots : Nat := 0
  /-- The sequences, each of which may remember a child. -/
  continuations : Nat := 0
  /-- The actions, each of which may be outstanding. -/
  outstanding : Nat := 0
  /-- The changes of slots in one tick. -/
  slotChanges : Nat := 0
  /-- The deciders that are open at the same time. -/
  frames : Nat := 0
  /-- The requests for deferred actions in one tick. -/
  requests : Nat := 0
  deriving DecidableEq, Repr, Inhabited

namespace Capacities

/-- The amount of a resource. -/
def get (capacities : Capacities) : Resource → Nat
  | .atoms => capacities.atoms
  | .slots => capacities.slots
  | .continuations => capacities.continuations
  | .outstanding => capacities.outstanding
  | .slotChanges => capacities.slotChanges
  | .frames => capacities.frames
  | .requests => capacities.requests

/-- The capacities with given amounts. -/
def ofFn (amount : Resource → Nat) : Capacities :=
  ⟨amount .atoms, amount .slots, amount .continuations, amount .outstanding, amount .slotChanges,
    amount .frames, amount .requests⟩

@[simp] theorem get_ofFn (amount : Resource → Nat) (resource : Resource) :
    (ofFn amount).get resource = amount resource := by
  cases resource <;> rfl

@[simp] theorem ofFn_get (capacities : Capacities) : ofFn capacities.get = capacities := rfl

/-- The first resource of which there is less than needed. -/
def shortfall? (offered needed : Capacities) : Option Resource :=
  Resource.all.find? fun resource => decide (offered.get resource < needed.get resource)

/-- Enough of every resource. -/
def covers (offered needed : Capacities) : Bool := (offered.shortfall? needed).isNone

/-- The larger amount of each resource. -/
def union (first second : Capacities) : Capacities :=
  ofFn fun resource => max (first.get resource) (second.get resource)

theorem covers_iff (offered needed : Capacities) :
    offered.covers needed = true ↔ ∀ resource, needed.get resource ≤ offered.get resource := by
  simp only [covers, shortfall?, Option.isNone_iff_eq_none, List.find?_eq_none,
    decide_eq_true_eq, Nat.not_lt]
  exact ⟨fun enough resource => enough resource resource.mem_all,
    fun enough resource _ => enough resource⟩

end Capacities

/-- What a machine is set up for. -/
structure Config where
  label : Option String := none
  capacities : Capacities := {}
  deriving DecidableEq, Repr

/-- The smallest configuration that covers all the given needs. -/
def Config.covering (needs : List Capacities) : Config where
  capacities := needs.foldl Capacities.union {}

end BehaviorTree
