import BehaviorTree.Proofs.Tick.InPlace
import BehaviorTree.Proofs.Tick.Safety

namespace BehaviorTree
open Ordered

namespace Procedure
variable {ω ν ε δ α γ : Type} {state : ω} {refused : Prop}

/-- A procedure comes to an answer. It is refused exactly under a condition, and has changed nothing
then. -/
def AllOrNothing (procedure : Procedure ω ε α) (state : ω) (refused : Prop) : Prop :=
  ∃ answer after, procedure.outcome state = .ok (answer, after) ∧
    ((∃ cause, answer = .error cause) ↔ refused) ∧ (refused → after = state)

namespace AllOrNothing

theorem of_refused {procedure : Procedure ω ε α} {cause : ε}
    (outcome_eq : procedure.outcome state = .ok (.error cause, state)) (holds : refused) :
    procedure.AllOrNothing state refused :=
  ⟨_, _, outcome_eq, ⟨fun _ => holds, fun _ => ⟨cause, rfl⟩⟩, fun _ => rfl⟩

theorem of_answered {procedure : Procedure ω ε α} {answer : α} {after : ω}
    (outcome_eq : procedure.outcome state = .ok (.ok answer, after)) (allowed : ¬refused) :
    procedure.AllOrNothing state refused := by
  refine ⟨_, _, outcome_eq, ⟨?_, fun holds => absurd holds allowed⟩,
    fun holds => absurd holds allowed⟩
  rintro ⟨cause, error⟩
  cases error

/-- Either the procedure is refused under the condition and the state has stayed, or it answers
without the condition. -/
theorem cases {procedure : Procedure ω ε α} (allOrNothing : procedure.AllOrNothing state refused) :
    (∃ cause, procedure.outcome state = .ok (.error cause, state) ∧ refused) ∨
      ∃ answer after, procedure.outcome state = .ok (.ok answer, after) ∧ ¬refused := by
  obtain ⟨answer, after, outcome_eq, refuses, kept⟩ := allOrNothing
  cases answer with
  | error cause =>
    have holds := refuses.mp ⟨cause, rfl⟩
    rw [kept holds] at outcome_eq
    exact Or.inl ⟨cause, outcome_eq, holds⟩
  | ok answer =>
    refine Or.inr ⟨answer, after, outcome_eq, fun holds => ?_⟩
    obtain ⟨cause, error⟩ := refuses.mpr holds
    cases error

/-- An answer comes with the new state, and a refusal with none. -/
theorem of_kept {procedure : Procedure ω ε α} {result : Except ε (α × ω)}
    (outcome_eq : procedure.outcome state = .ok (InPlace.kept state result))
    (refuses : (∃ cause, result = .error cause) ↔ refused) :
    procedure.AllOrNothing state refused := by
  cases result with
  | error cause => exact of_refused outcome_eq (refuses.mp ⟨cause, rfl⟩)
  | ok answer =>
    apply of_answered outcome_eq
    intro holds
    obtain ⟨cause, error⟩ := refuses.mpr holds
    cases error

/-- A part of the state that is put back as it was leaves the whole as it was. -/
theorem within {view : ω → ν} {restore : ν → ω → ω} {procedure : Procedure ν ε α}
    (allOrNothing : procedure.AllOrNothing (view state) refused)
    (restored : restore (view state) state = state) (reason : ε → δ) (wrap : α → γ) :
    (Procedure.within view restore reason wrap procedure).AllOrNothing state refused := by
  obtain ⟨cause, outcome_eq, holds⟩ | ⟨answer, part, outcome_eq, allowed⟩ := allOrNothing.cases
  · have outcome_whole : (Procedure.within view restore reason wrap procedure).outcome state =
        .ok (.error (reason cause), restore (view state) state) := by
      rw [outcome_within, outcome_eq]
      rfl
    rw [restored] at outcome_whole
    exact of_refused outcome_whole holds
  · have outcome_whole : (Procedure.within view restore reason wrap procedure).outcome state =
        .ok (.ok (wrap answer), restore part state) := by
      rw [outcome_within, outcome_eq]
      rfl
    exact of_answered outcome_whole allowed

/-- What is done after a procedure that was not refused may be anything that is never refused. -/
theorem bind {procedure : Procedure ω ε α} {next : α → Procedure ω ε γ}
    (allOrNothing : procedure.AllOrNothing state refused)
    (never : ∀ value middle, ∃ answer after,
      (next value).outcome middle = .ok (.ok answer, after)) :
    (procedure >>= next).AllOrNothing state refused := by
  obtain ⟨cause, outcome_eq, holds⟩ | ⟨value, middle, outcome_eq, allowed⟩ := allOrNothing.cases
  · have outcome_whole : (procedure >>= next).outcome state = .ok (.error cause, state) := by
      rw [outcome_bind, outcome_eq]
      rfl
    exact of_refused outcome_whole holds
  · obtain ⟨answer, after, answered⟩ := never value middle
    have outcome_whole : (procedure >>= next).outcome state = .ok (.ok answer, after) := by
      rw [outcome_bind, outcome_eq]
      exact answered
    exact of_answered outcome_whole allowed

end AllOrNothing

end Procedure

section Ticks
variable {β : Type} {tick : Tick β} {setting : Setting β}

/-- What a tick may be given beside the room: a machine whose buffers are as large as it says, and
an actor whose sparse arrays ascend, with no active entry at a decider. -/
structure Tick.Regular (tick : Tick β) (setting : Setting β) : Prop where
  sized : tick.machine.Sized
  ascending : tick.actor.isAscending = true
  undecided : ∀ entry ∈ tick.actor.outstanding.entries.toList, entry.value.isActive = true →
    (setting.shape.atom? entry.atom).any Atom.isDecider = false

/-- The machine has too little of a resource, or the actor is not of the right size. -/
def Tick.Cramped (tick : Tick β) (setting : Setting β) : Prop :=
  (∃ resource, tick.machine.capacities.get resource < setting.shape.needs.get resource) ∨
    tick.actor.supports setting.shape.needs = false

/-- The room is checked as a whole. -/
theorem Tick.checkRoom_error_iff :
    (∃ cause, tick.machine.checkRoom tick.actor setting.shape = .error cause) ↔
      tick.Cramped setting := by
  have enough_iff := Capacities.covers_iff tick.machine.capacities setting.shape.needs
  rw [Capacities.covers] at enough_iff
  simp only [Machine.checkRoom, Cramped]
  cases short : tick.machine.capacities.shortfall? setting.shape.needs with
  | some resource =>
    rw [short] at enough_iff
    refine ⟨fun _ => Or.inl ?_, fun _ => ⟨_, rfl⟩⟩
    by_contra none
    simp only [not_exists, Nat.not_lt] at none
    cases enough_iff.mpr none
  | none =>
    rw [short] at enough_iff
    have enough := enough_iff.mp rfl
    cases tick.actor.supports setting.shape.needs with
    | false => simp
    | true => simpa using enough

/-- What is regular and not cramped fits. -/
theorem Tick.Regular.fit (regular : tick.Regular setting) (roomy : ¬tick.Cramped setting) :
    tick.Fit setting where
  sized := regular.sized
  covers := by
    rw [Machine.supports, Capacities.covers_iff]
    intro resource
    by_contra short
    exact roomy (Or.inl ⟨resource, by omega⟩)
  supports := by
    by_contra unsized
    exact roomy (Or.inr (Bool.eq_false_iff.mpr unsized))
  ascending := regular.ascending
  undecided := regular.undecided

namespace InPlace

/-- A traversal is refused where it is not prepared, and then only. -/
theorem complete_allOrNothing {procedure : Procedure (Tick β) MachineError Status}
    {prepared : Except MachineError Machine}
    (outcome_eq : procedure.outcome tick =
      (tick.complete setting prepared).map fun outcome => (outcome.answer, outcome.tick))
    (refuses : ∀ cause, tick.machine.checkRoom tick.actor setting.shape = .error cause →
      prepared = .error cause)
    (completes : tick.Fit setting → ∃ result after,
      tick.complete setting prepared = .ok ⟨.ok result, after⟩)
    (regular : tick.Regular setting) : procedure.AllOrNothing tick (tick.Cramped setting) := by
  by_cases cramped : tick.Cramped setting
  · obtain ⟨cause, refused⟩ := Tick.checkRoom_error_iff.mpr cramped
    rw [refuses cause refused] at outcome_eq
    exact .of_refused outcome_eq cramped
  · obtain ⟨result, after, completed⟩ := completes (regular.fit cramped)
    rw [completed] at outcome_eq
    exact .of_answered outcome_eq cramped

theorem update_allOrNothing (regular : tick.Regular setting) :
    (update setting).AllOrNothing tick (tick.Cramped setting) := by
  apply complete_allOrNothing (outcome_update setting tick) _ _ regular
  · intro cause refused
    rw [Machine.prepareUpdate, refused]
    rfl
  · intro fit
    obtain ⟨after, completes, -⟩ := fit.update_performs
    exact ⟨_, after, completes.complete_eq⟩

theorem cancel_allOrNothing (regular : tick.Regular setting) :
    (cancel setting).AllOrNothing tick (tick.Cramped setting) := by
  apply complete_allOrNothing (outcome_cancel setting tick) _ _ regular
  · intro cause refused
    rw [Machine.prepareCancel, refused]
    rfl
  · intro fit
    obtain ⟨after, completes, -⟩ := fit.cancel_performs
    exact ⟨_, after, completes.complete_eq⟩

theorem takeRequests_allOrNothing (actor : Nat) (machine : Machine) (room : List ActorRequest) :
    (takeRequests actor).AllOrNothing (machine, room) (room.length < machine.requests.count) := by
  apply Procedure.AllOrNothing.of_kept (outcome_takeRequests actor machine room)
  rw [Machine.takeRequestsInto]
  by_cases lacks : room.length < machine.requests.count
  · rw [if_pos lacks]
    simp [lacks, Except.map]
  · rw [if_neg lacks]
    simp [lacks, Except.map]

theorem merge_allOrNothing {actor : Actor} (ascending : actor.isAscending = true) (atom : Nat)
    (status : Status) :
    (merge atom status).AllOrNothing actor
      (atom ∉ actor.outstanding.atoms ∧
        actor.outstanding.count = actor.outstanding.capacity) := by
  apply Procedure.AllOrNothing.of_kept (outcome_merge atom status actor)
  have absent_iff := SparseStates.find?_eq_none_iff (actor.isAscending_iff.mp ascending).2 atom
  have fits := actor.outstanding.fits
  rw [Actor.merge, SparseStates.merge?]
  rw [SparseStates.find?] at absent_iff
  have mem_atoms : atom ∈ actor.outstanding.atoms ↔
      ¬∀ entry ∈ actor.outstanding.entries.toList, entry.atom ≠ atom := by
    simp [SparseStates.atoms]
  rw [mem_atoms, not_not, ← absent_iff]
  cases place : searchKey actor.outstanding.entries atom with
  | found position =>
    have inside := search_found_lt place
    simp [Except.map, inside]
  | missing position =>
    dsimp only
    by_cases room : actor.outstanding.count < actor.outstanding.capacity
    · rw [if_pos room]
      simp [Except.map, Nat.ne_of_lt room]
    · rw [if_neg room]
      have full : actor.outstanding.count = actor.outstanding.capacity :=
        Nat.le_antisymm fits (Nat.not_lt.mp room)
      simp [Except.map, full]

theorem setSlot_allOrNothing (slot : Nat) (status : Status) (actor : Actor) :
    (setSlot slot status).AllOrNothing actor (actor.slots.size ≤ slot) := by
  apply Procedure.AllOrNothing.of_kept (outcome_setSlot slot status actor)
  rw [Actor.setSlot]
  by_cases inside : slot < actor.slots.size
  · rw [dif_pos inside]
    simp [Except.map, inside]
  · rw [dif_neg inside]
    simpa [Except.map] using inside

end InPlace

end Ticks

/-- A blackboard that is put back under its handle changes nothing. -/
theorem Boards.insert_lookup {β : Type} {boards : Boards β} {handle : UInt64} {board : β}
    (found : boards.lookup handle = some board) : boards.insert handle board = boards := by
  induction boards with
  | nil => cases found
  | cons entry boards ih =>
    obtain ⟨other, present⟩ := entry
    rw [List.lookup_cons] at found
    by_cases same : handle = other
    · subst same
      simp only [beq_self_eq_true, Option.some.injEq] at found
      simp [insert, found]
    · have elsewhere : (handle == other) = false := by simpa using same
      have differs : (other == handle) = false := by simpa using Ne.symm same
      rw [elsewhere] at found
      simp [insert, differs, ih found]

/-- A world: a machine, an actor and the blackboard it is given, the blackboards under their
handles, the room for requests, and what has happened. -/
structure World (β : Type) extends Moment β where
  boards : Boards β
  room : List ActorRequest
  trace : Array (Event β)

namespace World
variable {β : Type}

/-- A tick of the world with a blackboard, in which nothing has happened yet. -/
def tickOn (board : β) (world : World β) : Tick β := { world.toMoment with board }

/-- The world after a tick. -/
def afterTick (tick : Tick β) (world : World β) : World β :=
  { world with toMoment := tick.toMoment, trace := world.trace ++ tick.trace }

/-- The world after a tick with the blackboard under the actor's handle. -/
def afterTickByHandle (tick : Tick β) (world : World β) : World β :=
  { world with
    machine := tick.machine
    actor := tick.actor
    boards := world.boards.insert world.actor.handle tick.board
    trace := world.trace ++ tick.trace }

/-- A tick in which nothing has happened leaves the world as it is. -/
theorem afterTick_tickOn (world : World β) :
    world.afterTick (world.tickOn world.board) = world := by
  simp [afterTick, tickOn]

theorem afterTickByHandle_tickOn {world : World β} {board : β}
    (found : world.boards.lookup world.actor.handle = some board) :
    world.afterTickByHandle (world.tickOn board) = world := by
  simp [afterTickByHandle, tickOn, Boards.insert_lookup found]

end World

/-- The calls from outside that may be refused. -/
inductive OutsideCall where
  | update
  | cancel
  | updateByHandle
  /-- The queued requests are asked for on behalf of an actor. -/
  | takeRequests (actor : Nat)
  | merge (atom : Nat) (status : Status)
  | setSlot (slot : Nat) (status : Status)

/-- Why a call is refused. -/
inductive Refusal where
  | machine (error : MachineError)
  | actor (error : ActorError)

/-- What a call answers. -/
inductive Answer where
  | status (status : Status)
  | count (count : Nat)
  | done

namespace OutsideCall
variable {β : Type} (setting : Setting β)

/-- The call changes the world in place. -/
def perform : OutsideCall → Procedure (World β) Refusal Answer
  | .update =>
      .within (fun world => world.tickOn world.board) World.afterTick .machine .status
        (InPlace.update setting)
  | .cancel =>
      .within (fun world => world.tickOn world.board) World.afterTick .machine .status
        (InPlace.cancel setting)
  | .updateByHandle => do
      let world ← get
      match world.boards.lookup world.actor.handle with
      | none => throw (.machine (.noBoard world.actor.id world.actor.handle))
      | some board =>
          .within (World.tickOn board) World.afterTickByHandle .machine .status
            (InPlace.update setting)
  | .takeRequests actor =>
      .within (fun world => (world.machine, world.room))
        (fun (machine, room) world => { world with machine, room }) .machine .count
        (InPlace.takeRequests actor)
  | .merge atom status => do
      let answer ← .within (fun world : World β => world.actor)
        (fun actor world => { world with actor }) .actor (fun _ => .done)
        (InPlace.merge atom status)
      modify fun world =>
        { world with trace := world.trace.push (.logged (world.actor.mergeReport atom status)) }
      return answer
  | .setSlot slot status =>
      .within (fun world : World β => world.actor) (fun actor world => { world with actor }) .actor
        (fun _ => .done) (InPlace.setSlot slot status)

/-- What the call answers, and the new world that it gives back. -/
def result (world : World β) : OutsideCall → Checked (Except Refusal Answer × World β)
  | .update => ((world.tickOn world.board).update setting).map fun outcome =>
      ((outcome.answer.mapError .machine).map .status, world.afterTick outcome.tick)
  | .cancel => ((world.tickOn world.board).cancel setting).map fun outcome =>
      ((outcome.answer.mapError .machine).map .status, world.afterTick outcome.tick)
  | .updateByHandle =>
      (world.machine.updateByHandle world.actor world.boards setting).map fun outcome =>
        ((outcome.answer.mapError .machine).map .status,
          { world with
            machine := outcome.machine
            actor := outcome.actor
            boards := outcome.boards
            trace := world.trace ++ outcome.trace })
  | .takeRequests actor => .ok <|
      match world.machine.takeRequestsInto actor world.room with
      | .ok (count, room, machine) => (.ok (.count count), { world with machine, room })
      | .error cause => (.error (.machine cause), world)
  | .merge atom status => .ok <|
      match world.actor.merge atom status with
      | .ok actor =>
          (.ok .done, { world with
            actor
            trace := world.trace.push (.logged (actor.mergeReport atom status)) })
      | .error cause => (.error (.actor cause), world)
  | .setSlot slot status => .ok <|
      match world.actor.setSlot slot status with
      | .ok actor => (.ok .done, { world with actor })
      | .error cause => (.error (.actor cause), world)

/-- What a call lacks in a world. -/
def Refused (world : World β) : OutsideCall → Prop
  | .update | .cancel => (world.tickOn world.board).Cramped setting
  | .updateByHandle =>
      (world.tickOn world.board).Cramped setting ∨ world.boards.lookup world.actor.handle = none
  | .takeRequests _ => world.room.length < world.machine.requests.count
  | .merge atom _ =>
      atom ∉ world.actor.outstanding.atoms ∧
        world.actor.outstanding.count = world.actor.outstanding.capacity
  | .setSlot slot _ => world.actor.slots.size ≤ slot

variable {setting}

/-- Without a blackboard under its handle, the actor is not updated. -/
theorem outcome_updateByHandle (setting : Setting β) (world : World β) :
    (perform setting .updateByHandle).outcome world =
      match world.boards.lookup world.actor.handle with
      | none => .ok (.error (.machine (.noBoard world.actor.id world.actor.handle)), world)
      | some board =>
          (Procedure.within (World.tickOn board) World.afterTickByHandle Refusal.machine
            Answer.status (InPlace.update setting)).outcome world := by
  rw [perform, Procedure.outcome_bind, Procedure.outcome_get, Checked.ok_bind]
  dsimp only
  cases world.boards.lookup world.actor.handle <;> rfl

/-- The call in place does what gives back the new world. -/
theorem outcome_perform (call : OutsideCall) (world : World β) :
    (call.perform setting).outcome world = call.result setting world := by
  cases call with
  | update =>
    rw [perform, Procedure.outcome_within, InPlace.outcome_update, result]
    cases (world.tickOn world.board).update setting <;> rfl
  | cancel =>
    rw [perform, Procedure.outcome_within, InPlace.outcome_cancel, result]
    cases (world.tickOn world.board).cancel setting <;> rfl
  | updateByHandle =>
    rw [outcome_updateByHandle, result, Machine.updateByHandle]
    cases world.boards.lookup world.actor.handle with
    | none => rfl
    | some board =>
      dsimp only
      rw [Procedure.outcome_within, InPlace.outcome_update, World.tickOn]
      cases Tick.update { machine := world.machine, actor := world.actor, board } setting <;> rfl
  | takeRequests actor =>
    rw [perform, Procedure.outcome_within, InPlace.outcome_takeRequests, Checked.ok_bind, result]
    cases world.machine.takeRequestsInto actor world.room <;> rfl
  | merge atom status =>
    rw [perform, Procedure.outcome_bind, Procedure.outcome_within, InPlace.outcome_merge,
      Checked.ok_bind, Checked.ok_bind, result]
    cases world.actor.merge atom status <;> rfl
  | setSlot slot status =>
    rw [perform, Procedure.outcome_within, InPlace.outcome_setSlot, Checked.ok_bind, result]
    cases world.actor.setSlot slot status <;> rfl

/-- A call does what the function does that gives back the new world. It is refused exactly where
it lacks something, and then the world stays as it is: no request is dropped, no value of the actor,
of the blackboards or of the room is written, and nothing has happened. -/
theorem perform_all_or_nothing (setting : Setting β) (call : OutsideCall) (world : World β)
    (regular : (world.tickOn world.board).Regular setting) :
    (call.perform setting).outcome world = call.result setting world ∧
      (call.perform setting).AllOrNothing world (call.Refused setting world) := by
  refine ⟨outcome_perform call world, ?_⟩
  cases call with
  | update => exact (InPlace.update_allOrNothing regular).within world.afterTick_tickOn _ _
  | cancel => exact (InPlace.cancel_allOrNothing regular).within world.afterTick_tickOn _ _
  | updateByHandle =>
    have looked := outcome_updateByHandle setting world
    cases found : world.boards.lookup world.actor.handle with
    | none =>
      rw [found] at looked
      exact .of_refused looked (Or.inr found)
    | some board =>
      rw [found] at looked
      have lacks : Refused setting world .updateByHandle ↔
          (world.tickOn board).Cramped setting := by
        rw [Refused, found]
        exact or_iff_left nofun
      have fitting : (world.tickOn board).Regular setting :=
        ⟨regular.sized, regular.ascending, regular.undecided⟩
      have ticked := (InPlace.update_allOrNothing fitting).within
        (World.afterTickByHandle_tickOn found) Refusal.machine Answer.status
      rw [Procedure.AllOrNothing, lacks, looked]
      exact ticked
  | takeRequests actor =>
    rw [perform]
    apply Procedure.AllOrNothing.within
    · exact InPlace.takeRequests_allOrNothing actor world.machine world.room
    · rfl
  | merge atom status =>
    rw [perform]
    apply Procedure.AllOrNothing.bind
    · apply Procedure.AllOrNothing.within
      · exact InPlace.merge_allOrNothing regular.ascending atom status
      · rfl
    · intro value middle
      exact ⟨_, _, rfl⟩
  | setSlot slot status =>
    rw [perform]
    apply Procedure.AllOrNothing.within
    · exact InPlace.setSlot_allOrNothing slot status world.actor
    · rfl

end OutsideCall

namespace Sample

/-- A world whose machine has room for one request only, which is still queued. -/
def crampedWorld : World Nat where
  machine := { Machine.new { requests := 1 } with
    requests := ⟨#[⟨7, 3, 2⟩], ⟨1, 1, 0, by decide⟩, rfl⟩ }
  actor := actor
  board := 0
  boards := [(0, 0)]
  room := []
  trace := #[]

theorem regular : (crampedWorld.tickOn crampedWorld.board).Regular setting where
  sized := ⟨rfl, rfl, rfl, rfl, rfl⟩
  ascending := by decide
  undecided := by decide

end Sample

/-- An update of the cramped world is refused, and the queued request stays. -/
theorem OutsideCall.perform_all_or_nothing_sample :
    (Sample.crampedWorld.tickOn Sample.crampedWorld.board).Regular Sample.setting ∧
    ∃ cause, (OutsideCall.update.perform Sample.setting).outcome Sample.crampedWorld =
      .ok (.error cause, Sample.crampedWorld) := by
  obtain ⟨-, answer, after, outcome_eq, refuses, kept⟩ :=
    perform_all_or_nothing Sample.setting .update Sample.crampedWorld Sample.regular
  have lacks : OutsideCall.update.Refused Sample.setting Sample.crampedWorld :=
    Or.inl ⟨.atoms, by decide⟩
  obtain ⟨cause, rfl⟩ := refuses.mpr lacks
  rw [kept lacks] at outcome_eq
  exact ⟨Sample.regular, cause, outcome_eq⟩

end BehaviorTree
