namespace BehaviorTree

/-- How a decider combines the statuses of its children. -/
inductive Rule where
  /-- One child after the other, as long as they succeed. -/
  | sequence
  /-- The first child that does not fail. -/
  | dynamicPriority
  /-- All children in the same tick. -/
  | concurrent
  deriving DecidableEq, Repr

/-- The kind of a node. -/
inductive NodeKind where
  | immediateAction
  | deferredAction
  | persistentAction
  | decider (rule : Rule)
  deriving DecidableEq, Repr

namespace NodeKind

def isDecider : NodeKind → Bool
  | decider _ => true
  | immediateAction | deferredAction | persistentAction => false

def isAction (kind : NodeKind) : Bool := !kind.isDecider

def all : List NodeKind :=
  [immediateAction, deferredAction, persistentAction, decider .sequence,
    decider .dynamicPriority, decider .concurrent]

/-- The written name of a kind. -/
def name : NodeKind → String
  | immediateAction => "ImmediateAction"
  | deferredAction => "DeferredAction"
  | persistentAction => "PersistentAction"
  | decider .sequence => "SequenceDecider"
  | decider .dynamicPriority => "DynamicPriorityDecider"
  | decider .concurrent => "ConcurrentDecider"

/-- The kind with a given written name. -/
def ofName? (text : String) : Option NodeKind := all.find? (·.name == text)

/-- The written names of the fields of an atom of a kind. -/
def fieldNames : NodeKind → List String
  | immediateAction => ["function_index"]
  | deferredAction => ["action_id", "resource_id"]
  | persistentAction => ["state_index"]
  | decider _ => ["end_index"]

@[simp] theorem ofName?_name (kind : NodeKind) : ofName? kind.name = some kind := by
  rcases kind with _ | _ | _ | (_ | _ | _) <;> decide

end NodeKind

/-- A node of the stream. -/
inductive Atom where
  /-- Calls a function of the shape in place. -/
  | immediate (function : Nat)
  /-- Is carried out elsewhere, on requests. -/
  | deferred (action resource : Nat)
  /-- Reads its status from a slot of the actor. -/
  | persistent (slot : Nat)
  /-- Combines the nodes after it, up to the atom at `stop`. -/
  | decider (rule : Rule) (stop : Nat)
  deriving DecidableEq, Repr

namespace Atom

def kind : Atom → NodeKind
  | immediate _ => .immediateAction
  | deferred _ _ => .deferredAction
  | persistent _ => .persistentAction
  | decider rule _ => .decider rule

/-- The contents of the fields, in the order of their names. -/
def values : Atom → List Nat
  | immediate function => [function]
  | deferred action resource => [action, resource]
  | persistent slot => [slot]
  | decider _ stop => [stop]

/-- The fields under their written names. -/
def fields (atom : Atom) : List (String × Nat) := atom.kind.fieldNames.zip atom.values

/-- The atom of a kind with the given contents of its fields. -/
def ofValues? : NodeKind → List Nat → Option Atom
  | .immediateAction, [function] => some (immediate function)
  | .deferredAction, [action, resource] => some (deferred action resource)
  | .persistentAction, [slot] => some (persistent slot)
  | .decider rule, [stop] => some (decider rule stop)
  | _, _ => none

@[simp] theorem ofValues?_values (atom : Atom) : ofValues? atom.kind atom.values = some atom := by
  cases atom <;> rfl

/-- The index just past the subtree of a decider. -/
def stop? : Atom → Option Nat
  | decider _ stop => some stop
  | immediate _ | deferred _ _ | persistent _ => none

def isDecider (atom : Atom) : Bool := atom.kind.isDecider

def isDeferred : Atom → Bool
  | deferred _ _ => true
  | immediate _ | persistent _ | decider _ _ => false

end Atom

end BehaviorTree
