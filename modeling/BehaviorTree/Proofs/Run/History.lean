import BehaviorTree.Proofs.Run.Steady
import BehaviorTree.Proofs.Tick.Safety

namespace BehaviorTree
variable {β : Type}

/-- What a tick is for. -/
inductive TickKind where
  | update
  | cancel
  deriving DecidableEq, Repr

/-- A tick as it is seen from outside: the actor before and after it, the calls of immediate
actions, and the requests that are extracted from the machine when it is over. -/
structure TickRecord where
  kind : TickKind
  before : Actor
  calls : List Call
  requests : List ActorRequest
  after : Actor

/-- The record of a tick that an actor has gone through. -/
def TickRecord.ofTick (kind : TickKind) (before : Actor) (after : Tick β) : TickRecord :=
  ⟨kind, before, after.calls, (after.machine.takeRequests before.id).1, after.actor⟩

/-- A tick of an actor in which nothing has happened yet. -/
def Tick.start (machine : Machine) (actor : Actor) (board : β) : Tick β := { machine, actor, board }

/-- The runs of an actor, with the histories of their ticks. Each tick has its own machine,
blackboard and time; a report is about a deferred action that has an entry. -/
inductive Run (shape : Shape β) : List TickRecord → Actor → Prop
  | start (id : Nat) (seed : Seed) (handle : UInt64) :
      Run shape [] { Actor.forShape id shape with seed, handle }
  | update {history : List TickRecord} {actor : Actor} (run : Run shape history actor)
      {machine : Machine} (sized : machine.Sized) (covers : machine.supports shape.needs = true)
      (board : β) (time : Time) (monitored : Bool) {result : Status} {after : Tick β}
      (updated : (Tick.start machine actor board).update ⟨shape, time, monitored⟩ =
        .ok ⟨.ok result, after⟩) :
      Run shape (history ++ [.ofTick .update actor after]) after.actor
  | cancel {history : List TickRecord} {actor : Actor} (run : Run shape history actor)
      {machine : Machine} (sized : machine.Sized) (covers : machine.supports shape.needs = true)
      (board : β) (time : Time) (monitored : Bool) {result : Status} {after : Tick β}
      (canceled : (Tick.start machine actor board).cancel ⟨shape, time, monitored⟩ =
        .ok ⟨.ok result, after⟩) :
      Run shape (history ++ [.ofTick .cancel actor after]) after.actor
  | setSlot {history : List TickRecord} {actor after : Actor} (run : Run shape history actor)
      (slot : Nat) (status : Status) (set : actor.setSlot slot status = .ok after) :
      Run shape history after
  | merge {history : List TickRecord} {actor after : Actor} (run : Run shape history actor)
      {atom action resource : Nat} (stands : shape.atom? atom = some (.deferred action resource))
      (known : (actor.outstanding.find? atom).isSome) (status : Status)
      (merged : actor.merge atom status = .ok after) : Run shape history after

namespace Run
variable {shape : Shape β} {history : List TickRecord} {actor : Actor}

/-- Along a run the actor is steady. -/
theorem steady (run : Run shape history actor) : actor.Steady shape := by
  induction run with
  | start id seed handle => exact Actor.steady_forShape id shape seed handle
  | @update _ actor _ machine sized covers board time monitored _ _ updated steady =>
    obtain ⟨status, after, updates, taken⟩ :=
      (Tick.start machine actor board).update_taken ⟨shape, time, monitored⟩ steady sized covers
    obtain ⟨-, rfl⟩ : _ ∧ _ := by simpa using updated.symm.trans updates
    exact taken.steady
  | @cancel _ actor _ machine sized covers board time monitored _ _ canceled steady =>
    obtain ⟨after, cancels, taken⟩ :=
      (Tick.start machine actor board).cancel_taken ⟨shape, time, monitored⟩ steady sized covers
    obtain ⟨-, rfl⟩ : _ ∧ _ := by simpa using canceled.symm.trans cancels
    exact taken.steady
  | setSlot run slot status set steady => exact steady.setSlot set
  | merge run stands known status merged steady =>
    obtain ⟨after, merges, steady, -⟩ := steady.merge known status
    obtain rfl := Except.ok.inj (merged.symm.trans merges)
    exact steady

/-- What holds of a new actor, and is kept by ticks and by what happens between them, holds along
all runs. Between ticks, only the statuses of deferred actions that have an entry change. -/
theorem induction {motive : List TickRecord → Actor → Prop}
    (start : ∀ id seed handle, motive [] { Actor.forShape id shape with seed, handle })
    (tick : ∀ {history actor} (machine board time monitored kind) {course after},
      Run shape history actor →
      Taken ((Tick.start machine actor board).scene ⟨shape, time, monitored⟩)
        (Tick.start machine actor board) course after →
      motive history actor → motive (history ++ [.ofTick kind actor after]) after.actor)
    (between : ∀ {history actor after},
      (∀ atom, after.outstanding.find? atom = actor.outstanding.find? atom ∨
        (shape.atom? atom).any Atom.isDeferred = true ∧
          (actor.outstanding.find? atom).isSome ∧ (after.outstanding.find? atom).isSome) →
      motive history actor → motive history after)
    (run : Run shape history actor) : motive history actor := by
  induction run with
  | start id seed handle => exact start id seed handle
  | @update _ actor run machine sized covers board time monitored _ _ updated ih =>
    obtain ⟨status, after, updates, taken⟩ := (Tick.start machine actor board).update_taken
      ⟨shape, time, monitored⟩ run.steady sized covers
    obtain ⟨-, rfl⟩ : _ ∧ _ := by simpa using updated.symm.trans updates
    exact tick machine board time monitored .update run taken ih
  | @cancel _ actor run machine sized covers board time monitored _ _ canceled ih =>
    obtain ⟨after, cancels, taken⟩ := (Tick.start machine actor board).cancel_taken
      ⟨shape, time, monitored⟩ run.steady sized covers
    obtain ⟨-, rfl⟩ : _ ∧ _ := by simpa using canceled.symm.trans cancels
    exact tick machine board time monitored .cancel run taken ih
  | setSlot run slot status set ih =>
    refine between (fun atom => Or.inl ?_) ih
    unfold Actor.setSlot at set
    split at set
    · obtain rfl := Except.ok.inj set
      rfl
    · cases set
  | @merge _ actor _ run known _ _ stands present status merged ih =>
    obtain ⟨after, merges, -, -, found⟩ := run.steady.merge present status
    obtain rfl := Except.ok.inj (merged.symm.trans merges)
    refine between (fun atom => ?_) ih
    rw [found]
    by_cases same : atom = known
    · subst same
      rw [if_pos rfl, stands]
      exact Or.inr ⟨rfl, present, rfl⟩
    · rw [if_neg same]
      exact Or.inl rfl

end Run

namespace Sample

/-- A new actor of the sample whose persistent action was reported to run. -/
def newcomer : Actor := { Actor.forShape 5 shape with slots := #[.running] }

theorem run_newcomer : Run shape [] newcomer := .setSlot (.start 5 0 0) 0 .running rfl

/-- The first update of the newcomer. -/
theorem update_newcomer : ∃ result after,
    Run shape [.ofTick .update newcomer after] after.actor ∧
    (Tick.start (.forShape shape) newcomer 0).update setting = .ok ⟨.ok result, after⟩ ∧
    Taken ((Tick.start (.forShape shape) newcomer 0).scene setting)
      (Tick.start (.forShape shape) newcomer 0)
      (((Tick.start (.forShape shape) newcomer 0).scene setting).update 0).2 after := by
  obtain ⟨result, after, updates, taken⟩ :=
    (Tick.start (.forShape shape) newcomer 0).update_taken setting run_newcomer.steady
      (Machine.sized_new _) (by decide)
  exact ⟨result, after, run_newcomer.update (Machine.sized_new _) (by decide) 0 .zero false updates,
    updates, taken⟩

end Sample

end BehaviorTree
