import BehaviorTree.Shape

namespace BehaviorTree

/-- A call of a builder. -/
inductive BuildCall (α : Type) where
  /-- The function is added to the table a number of times; no atom is made. -/
  | register (function : α) (times : Nat)
  /-- The function is registered and called by a new immediate action. -/
  | immediate (function : α)
  /-- A new immediate action calls the function at an index of the table. -/
  | immediateAt (index : Nat)
  | deferred (action resource : Nat)
  /-- A new persistent action owns the next slot. -/
  | persistent
  | decider (rule : Rule) (children : List (BuildCall α))

/-- What has been built so far. -/
structure Builder (α : Type) where
  atoms : Array Atom := #[]
  functions : Array α := #[]
  slots : Nat := 0

/-- What a call delivered, and how many atoms there were when it returned. -/
structure Returned where
  index : Nat
  length : Nat
  deriving DecidableEq, Repr

namespace Builder
variable {α : Type}

/-- The new atom stands at the end. -/
def push (builder : Builder α) (atom : Atom) : Builder α :=
  { builder with atoms := builder.atoms.push atom }

/-- A function is known by its index in the table, of which 16 bits are kept. -/
def nextFunction (builder : Builder α) : Nat := builder.functions.size % Survey.functionLimit

def register (builder : Builder α) (function : α) : Builder α :=
  { builder with functions := builder.functions.push function }

/-- A function is registered a number of times in a row. -/
def registerTimes (builder : Builder α) (function : α) : Nat → Builder α
  | 0 => builder
  | times + 1 => (builder.register function).registerTimes function times

/-- The call that just ended delivered the index. -/
def returning (builder : Builder α) (index : Nat) : Returned := ⟨index, builder.atoms.size⟩

mutual

/-- The effect of a call, and what it and the calls inside it delivered in the order of their
returns. -/
def call (builder : Builder α) : BuildCall α → Builder α × List Returned
  | .register _ 0 => (builder, [])
  | .register function (times + 1) =>
      let before := builder.registerTimes function times
      let after := before.register function
      (after, [after.returning before.nextFunction])
  | .immediate function =>
      let after := (builder.register function).push (.immediate builder.nextFunction)
      (after, [after.returning builder.atoms.size])
  | .immediateAt index =>
      let after := builder.push (.immediate index)
      (after, [after.returning builder.atoms.size])
  | .deferred action resource =>
      let after := builder.push (.deferred action resource)
      (after, [after.returning builder.atoms.size])
  | .persistent =>
      let after := { builder with slots := builder.slots + 1 }.push (.persistent builder.slots)
      (after, [after.returning builder.atoms.size])
  | .decider rule children =>
      let (inside, returns) := (builder.push (.decider rule 0)).calls children
      let after :=
        { inside with
          atoms := inside.atoms.setIfInBounds builder.atoms.size
            (.decider rule inside.atoms.size) }
      (after, returns ++ [after.returning builder.atoms.size])

/-- The effect of calls one after the other. -/
def calls (builder : Builder α) : List (BuildCall α) → Builder α × List Returned
  | [] => (builder, [])
  | first :: rest =>
      let (builder, before) := builder.call first
      let (builder, after) := builder.calls rest
      (builder, before ++ after)

end

/-- The same construction over other functions. -/
def map {γ : Type} (builder : Builder α) (convert : α → γ) : Builder γ :=
  { builder with functions := builder.functions.map convert }

/-- The shape that was built, or why there is none. -/
def build {β : Type} (builder : Builder (Action β)) : Except ShapeError (Shape β) :=
  if builder.atoms.isEmpty then .error .emptyConstruction
  else Shape.ofAtoms builder.atoms builder.functions

end Builder

end BehaviorTree
