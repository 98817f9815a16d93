import BehaviorTree.Machine.Step

namespace BehaviorTree

/-- What a whole tick answers, and what it leaves behind. -/
structure Outcome (β : Type) where
  answer : Except MachineError Status
  tick : Tick β

/-- Blackboards under their handles. -/
abbrev Boards (β : Type) := List (UInt64 × β)

/-- The blackboard under a handle is replaced, or added if there was none. -/
def Boards.insert {β : Type} (handle : UInt64) (board : β) : Boards β → Boards β
  | [] => [(handle, board)]
  | entry :: boards =>
      if entry.1 == handle then (handle, board) :: boards else entry :: insert handle board boards

/-- What a tick of an actor whose blackboard is looked up answers and leaves behind. -/
structure LookupOutcome (β : Type) where
  answer : Except MachineError Status
  machine : Machine
  actor : Actor
  boards : Boards β
  trace : Array (Event β)

namespace Tick
variable {β : Type}

/-- Steps are taken until the command is terminal, but no more than a given number. -/
def run (setting : Setting β) : Nat → Tick β → Checked (Tick β)
  | 0, tick => if tick.machine.command.isTerminal then .ok tick else .error .stepLimit
  | steps + 1, tick =>
      if tick.machine.command.isTerminal then .ok tick
      else do run setting steps (← tick.step setting)

/-- Each atom is visited at most once, and each visit is followed by at most one way into a next
child and one way out of a decider. -/
def stepBudget (shape : Shape β) : Nat := 3 * shape.size + 3

/-- The state of a finished traversal goes back to the actor. -/
def finish (tick : Tick β) (setting : Setting β) : Checked (Outcome β) := do
  let machine := tick.machine
  if machine.command = .error then
    return ⟨.error (.stopped tick.actor.id machine.cursor), tick⟩
  let actor ← machine.extract setting.shape tick.actor
  let tick := { tick with actor }.log
    (.tickFinished actor.id machine.status machine.continuations.count machine.outstanding.count
      machine.requests.launchCount machine.requests.cancelCount)
  return ⟨.ok machine.status, tick⟩

/-- The traversal that was prepared is run to its end. -/
def complete (tick : Tick β) (setting : Setting β) (prepared : Except MachineError Machine) :
    Checked (Outcome β) :=
  match prepared with
  | .error error => .ok ⟨.error error, tick⟩
  | .ok machine => do
      let tick ← run setting (stepBudget setting.shape) { tick with machine }
      tick.finish setting

/-- The actor is updated once; the answer is what the root delivers. -/
def update (tick : Tick β) (setting : Setting β) : Checked (Outcome β) :=
  tick.complete setting (tick.machine.prepareUpdate tick.actor setting.shape)

/-- All that the actor has outstanding is canceled. -/
def cancel (tick : Tick β) (setting : Setting β) : Checked (Outcome β) :=
  tick.complete setting (tick.machine.prepareCancel tick.actor setting.shape)

end Tick

/-- The actor is updated with the blackboard under its handle. -/
def Machine.updateByHandle {β : Type} (machine : Machine) (actor : Actor) (boards : Boards β)
    (setting : Setting β) : Checked (LookupOutcome β) :=
  match boards.lookup actor.handle with
  | none => .ok ⟨.error (.noBoard actor.id actor.handle), machine, actor, boards, #[]⟩
  | some board => do
      let outcome ← Tick.update { machine, actor, board } setting
      let tick := outcome.tick
      return ⟨outcome.answer, tick.machine, tick.actor, boards.insert actor.handle tick.board,
        tick.trace⟩

end BehaviorTree
