import BehaviorTree.Proofs.Simulation.Update
import BehaviorTree.Proofs.Storage.Insertion

namespace BehaviorTree
open Machine Ordered

/-- A procedure changes a state in place. Where it is refused, the state stays as it is by then. -/
abbrev Procedure (ω ε α : Type) := ExceptT ε (StateT ω Checked) α

namespace Procedure
variable {ω ν ε δ α γ : Type}

/-- What a procedure answers in a state, and the state that it leaves. -/
def outcome (procedure : Procedure ω ε α) (state : ω) : Checked (Except ε α × ω) :=
  procedure.run.run state

/-- A procedure on a part of the state. -/
def within (view : ω → ν) (restore : ν → ω → ω) (reason : ε → δ) (wrap : α → γ)
    (procedure : Procedure ν ε α) : Procedure ω δ γ :=
  ExceptT.mk fun state => do
    let (answer, part) ← procedure.outcome (view state)
    return ((answer.mapError reason).map wrap, restore part state)

section Outcomes
variable (state : ω)

theorem outcome_pure (value : α) :
    (pure value : Procedure ω ε α).outcome state = .ok (.ok value, state) := rfl

theorem outcome_get : (get : Procedure ω ε ω).outcome state = .ok (.ok state, state) := rfl

theorem outcome_set (after : ω) :
    (set after : Procedure ω ε PUnit).outcome state = .ok (.ok ⟨⟩, after) := rfl

theorem outcome_modify (change : ω → ω) :
    (modify change : Procedure ω ε PUnit).outcome state = .ok (.ok ⟨⟩, change state) := rfl

/-- What comes after a refused procedure is not done. -/
theorem outcome_bind (procedure : Procedure ω ε α) (next : α → Procedure ω ε γ) :
    (procedure >>= next).outcome state = procedure.outcome state >>= fun
      | (.ok value, after) => (next value).outcome after
      | (.error cause, after) => .ok (.error cause, after) := by
  simp only [outcome, ExceptT.run_bind, StateT.run_bind]
  congr 1
  funext ⟨answer, after⟩
  cases answer <;> rfl

/-- A part of the state is changed, and put back into the whole. -/
theorem outcome_within (view : ω → ν) (restore : ν → ω → ω) (reason : ε → δ) (wrap : α → γ)
    (procedure : Procedure ν ε α) :
    (within view restore reason wrap procedure).outcome state =
      procedure.outcome (view state) >>= fun (answer, part) =>
        .ok ((answer.mapError reason).map wrap, restore part state) := rfl

end Outcomes

end Procedure

namespace InPlace
variable {β : Type}

section Ticks
variable (setting : Setting β)

/-- The machine is changed. -/
def onMachine (change : Machine → Machine) : Procedure (Tick β) MachineError Unit :=
  modify fun tick => { tick with machine := change tick.machine }

/-- The machine has to be large enough, and then the actor has to have the right size. -/
def checkRoom : Procedure (Tick β) MachineError Unit := do
  let tick ← get
  if let some resource := tick.machine.capacities.shortfall? setting.shape.needs then
    throw (.machineTooSmall resource)
  unless tick.actor.supports setting.shape.needs do throw (.actorNotSized tick.actor.id)

def prepareUpdate : Procedure (Tick β) MachineError Unit := do
  checkRoom setting
  onMachine Machine.reset
  onMachine fun machine => { machine with command := .invoke }

def prepareCancel : Procedure (Tick β) MachineError Unit := do
  checkRoom setting
  onMachine Machine.reset
  onMachine fun machine =>
    { machine with pending := machine.pending.cover ⟨0, setting.shape.size⟩ }
  onMachine fun machine => { machine with status := .cancel }
  onMachine fun machine => { machine with command := .cleanup }

/-- Steps are taken until the command is terminal. -/
def run : Procedure (Tick β) MachineError Unit :=
  ExceptT.mk fun tick => do
    let after ← tick.run setting (Tick.stepBudget setting.shape)
    return (.ok (), after)

/-- The state of a finished traversal goes back to the actor. -/
def finish : Procedure (Tick β) MachineError Status := do
  let tick ← get
  if tick.machine.command = .error then throw (.stopped tick.actor.id tick.machine.cursor)
  let actor ← ExceptT.lift (StateT.lift (tick.machine.extract setting.shape tick.actor))
  modify fun tick => { tick with actor }
  modify fun tick => tick.log (.tickFinished tick.actor.id tick.machine.status
    tick.machine.continuations.count tick.machine.outstanding.count
    tick.machine.requests.launchCount tick.machine.requests.cancelCount)
  return tick.machine.status

def update : Procedure (Tick β) MachineError Status := do
  prepareUpdate setting
  run setting
  finish setting

def cancel : Procedure (Tick β) MachineError Status := do
  prepareCancel setting
  run setting
  finish setting

end Ticks

/-- Requests are written over the room, one after the other from a position on. -/
def writeRequests :
    Nat → List ActorRequest → Procedure (Machine × List ActorRequest) MachineError Unit
  | _, [] => return ()
  | position, request :: requests => do
    modify fun (machine, room) => (machine, room.set position request)
    writeRequests (position + 1) requests

/-- The queued requests are written to the front of the room, and leave the machine. -/
def takeRequests (actor : Nat) : Procedure (Machine × List ActorRequest) MachineError Nat := do
  let (machine, room) ← get
  if room.length < machine.requests.count then
    throw (.requestsDoNotFit room.length machine.requests.count)
  writeRequests 0 (machine.requests.forActor actor)
  modify fun (machine, room) => ({ machine with requests := machine.requests.clear }, room)
  return machine.requests.count

/-- The outstanding actions are changed. -/
def onOutstanding (change : SparseStates Status → SparseStates Status) :
    Procedure Actor ActorError Unit :=
  modify fun actor => { actor with outstanding := change actor.outstanding }

/-- A status is merged: an entry is replaced, or inserted if there is room for one more. -/
def merge (atom : Nat) (status : Status) : Procedure Actor ActorError Unit := do
  let actor ← get
  match searchKey actor.outstanding.entries atom with
  | .found position => onOutstanding (SparseStates.overwriteAt position ⟨atom, status⟩)
  | .missing position =>
      unless actor.outstanding.count < actor.outstanding.capacity do
        throw (.noRoom actor.id actor.outstanding.count atom)
      onOutstanding (SparseStates.moveUp position)
      onOutstanding (SparseStates.overwriteAt position ⟨atom, status⟩)
      onOutstanding SparseStates.extend

def setSlot (slot : Nat) (status : Status) : Procedure Actor ActorError Unit := do
  let actor ← get
  unless slot < actor.slots.size do
    throw (.slotOutOfRange actor.id slot actor.slots.size)
  set { actor with slots := actor.slots.setIfInBounds slot status }

section
variable (setting : Setting β) (tick : Tick β)

theorem outcome_checkRoom : (checkRoom setting).outcome tick =
    .ok (tick.machine.checkRoom tick.actor setting.shape, tick) := by
  simp only [checkRoom, Procedure.outcome_bind, Procedure.outcome_get, Checked.ok_bind,
    Machine.checkRoom]
  cases tick.machine.capacities.shortfall? setting.shape.needs with
  | some resource => rfl
  | none =>
    cases tick.actor.supports setting.shape.needs with
    | true => rfl
    | false => rfl

theorem outcome_prepareUpdate : (prepareUpdate setting).outcome tick =
    .ok (match tick.machine.prepareUpdate tick.actor setting.shape with
      | .ok machine => (.ok (), { tick with machine })
      | .error cause => (.error cause, tick)) := by
  simp only [prepareUpdate, Procedure.outcome_bind, outcome_checkRoom, Checked.ok_bind]
  cases room : tick.machine.checkRoom tick.actor setting.shape with
  | ok => rw [prepareUpdate_eq room]; rfl
  | error cause => rw [Machine.prepareUpdate, room]; rfl

theorem outcome_prepareCancel : (prepareCancel setting).outcome tick =
    .ok (match tick.machine.prepareCancel tick.actor setting.shape with
      | .ok machine => (.ok (), { tick with machine })
      | .error cause => (.error cause, tick)) := by
  simp only [prepareCancel, Procedure.outcome_bind, outcome_checkRoom, Checked.ok_bind]
  cases room : tick.machine.checkRoom tick.actor setting.shape with
  | ok => rw [prepareCancel_eq room]; rfl
  | error cause => rw [Machine.prepareCancel, room]; rfl

theorem outcome_finish : (finish setting).outcome tick =
    (tick.finish setting).map fun outcome => (outcome.answer, outcome.tick) := by
  simp only [finish, Procedure.outcome_bind, Procedure.outcome_get, Checked.ok_bind, Tick.finish]
  by_cases stopped : tick.machine.command = .error
  · rw [if_pos stopped, if_pos stopped]
    rfl
  · rw [if_neg stopped, if_neg stopped]
    cases extracted : tick.machine.extract setting.shape tick.actor with
    | error fault => rfl
    | ok actor => rfl

theorem outcome_run : (run setting).outcome tick =
    (tick.run setting (Tick.stepBudget setting.shape)).map fun after => (.ok (), after) := by
  change (tick.run setting (Tick.stepBudget setting.shape) >>= _) = _
  cases tick.run setting (Tick.stepBudget setting.shape) <;> rfl

theorem outcome_complete {prepare : Procedure (Tick β) MachineError Unit}
    {prepared : Except MachineError Machine}
    (prepares : prepare.outcome tick = .ok (match prepared with
      | .ok machine => (.ok (), { tick with machine })
      | .error cause => (.error cause, tick))) :
    (do prepare; run setting; finish setting : Procedure (Tick β) MachineError Status).outcome
        tick =
      (tick.complete setting prepared).map fun outcome => (outcome.answer, outcome.tick) := by
  rw [Procedure.outcome_bind, prepares, Checked.ok_bind]
  cases prepared with
  | error cause => rfl
  | ok machine =>
    simp only [Procedure.outcome_bind, outcome_run, Tick.complete]
    cases Tick.run setting (Tick.stepBudget setting.shape) { tick with machine } with
    | error fault => rfl
    | ok after => exact outcome_finish setting after

/-- The update in place is the update. -/
theorem outcome_update : (update setting).outcome tick =
    (tick.update setting).map fun outcome => (outcome.answer, outcome.tick) :=
  outcome_complete setting tick (outcome_prepareUpdate setting tick)

/-- The cancellation in place is the cancellation. -/
theorem outcome_cancel : (cancel setting).outcome tick =
    (tick.cancel setting).map fun outcome => (outcome.answer, outcome.tick) :=
  outcome_complete setting tick (outcome_prepareCancel setting tick)

end

/-- What a call leaves that gives back the new state: where it is refused, the old state stays. -/
def kept {ω ε α : Type} (state : ω) : Except ε (α × ω) → Except ε α × ω
  | .ok (answer, after) => (.ok answer, after)
  | .error cause => (.error cause, state)

theorem outcome_writeRequests (position : Nat) (requests : List ActorRequest) (machine : Machine)
    (room : List ActorRequest) (fits : position + requests.length ≤ room.length) :
    (writeRequests position requests).outcome (machine, room) =
      .ok (.ok (), machine,
        room.take position ++ requests ++ room.drop (position + requests.length)) := by
  induction requests generalizing position room with
  | nil =>
    rw [writeRequests, Procedure.outcome_pure, List.append_nil, List.length_nil, Nat.add_zero,
      List.take_append_drop]
  | cons request requests ih =>
    rw [List.length_cons] at fits
    have inside : position < room.length := by omega
    have next : position + 1 + requests.length ≤ (room.set position request).length := by
      rw [List.length_set]
      omega
    have before : (room.set position request).take (position + 1) =
        room.take position ++ [request] := by
      rw [List.take_add_one, List.take_set_of_le (Nat.le_refl _), List.getElem?_set_self inside]
      rfl
    have behind : (room.set position request).drop (position + 1 + requests.length) =
        room.drop (position + (request :: requests).length) := by
      rw [List.drop_set_of_lt (by omega), List.length_cons]
      congr 1
      omega
    rw [writeRequests, Procedure.outcome_bind, Procedure.outcome_modify, Checked.ok_bind]
    change (writeRequests (position + 1) requests).outcome (machine, room.set position request) = _
    rw [ih (position + 1) (room.set position request) next, before, behind, List.append_assoc,
      List.append_assoc, List.append_assoc, List.singleton_append, List.cons_append]

theorem length_forActor (queue : RequestQueue) (actor : Nat) :
    (queue.forActor actor).length = queue.count := by
  rw [RequestQueue.forActor, List.length_append, List.length_map, List.length_map,
    Array.length_toList, Array.length_toList, RequestQueue.size_cancels, RequestQueue.size_launches]
  exact Nat.add_comm _ _

theorem outcome_takeRequests (actor : Nat) (machine : Machine) (room : List ActorRequest) :
    (takeRequests actor).outcome (machine, room) =
      .ok (kept (machine, room) ((machine.takeRequestsInto actor room).map
        fun (count, room, machine) => (count, machine, room))) := by
  simp only [takeRequests, Procedure.outcome_bind, Procedure.outcome_get, Checked.ok_bind,
    Machine.takeRequestsInto]
  by_cases lacks : room.length < machine.requests.count
  · rw [if_pos lacks, if_pos lacks]
    rfl
  · rw [if_neg lacks, if_neg lacks]
    have fits : 0 + (machine.requests.forActor actor).length ≤ room.length := by
      rw [length_forActor]
      omega
    rw [Procedure.outcome_bind, outcome_writeRequests _ _ _ _ fits, Checked.ok_bind, List.take_zero,
      List.nil_append, Nat.zero_add]
    rfl

theorem outcome_merge (atom : Nat) (status : Status) (actor : Actor) :
    (merge atom status).outcome actor =
      .ok (kept actor ((actor.merge atom status).map fun after => ((), after))) := by
  simp only [merge, Procedure.outcome_bind, Procedure.outcome_get, Checked.ok_bind, Actor.merge,
    SparseStates.merge?]
  cases place : searchKey actor.outstanding.entries atom with
  | found position =>
    have inside := search_found_lt place
    dsimp only
    rw [onOutstanding, Procedure.outcome_modify, SparseStates.overwriteAt_entry inside]
    rfl
  | missing position =>
    dsimp only
    by_cases room : actor.outstanding.count < actor.outstanding.capacity
    · rw [if_pos room, if_pos room]
      simp only [onOutstanding, Procedure.outcome_bind, Procedure.outcome_modify,
        Checked.ok_bind, SparseStates.insert_eq (search_missing_le place) room]
      rfl
    · rw [if_neg room, if_neg room]
      rfl

theorem outcome_setSlot (slot : Nat) (status : Status) (actor : Actor) :
    (setSlot slot status).outcome actor =
      .ok (kept actor ((actor.setSlot slot status).map fun after => ((), after))) := by
  simp only [setSlot, Procedure.outcome_bind, Procedure.outcome_get, Checked.ok_bind, Actor.setSlot]
  by_cases inside : slot < actor.slots.size
  · rw [if_pos inside, dif_pos inside]
    simp [Procedure.outcome_set, kept, Except.map, Array.setIfInBounds, inside]
  · rw [if_neg inside, dif_neg inside]
    rfl

end InPlace

end BehaviorTree
