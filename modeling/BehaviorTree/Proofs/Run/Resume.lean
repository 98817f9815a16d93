import BehaviorTree.Proofs.Course.Recorded
import BehaviorTree.Proofs.Course.Starts
import BehaviorTree.Proofs.Run.History

namespace BehaviorTree
open Course
variable {β : Type} {shape : Shape β} {told : List Happening} {actor : Actor}

/-- The runs of an actor, with the story of the latest tick if that was an update; before the first
tick and after a cancellation nothing is told. -/
inductive Lately (shape : Shape β) : List Happening → Actor → Prop
  | start (id : Nat) (seed : Seed) (handle : UInt64) :
      Lately shape [] { Actor.forShape id shape with seed, handle }
  | update {told : List Happening} {actor : Actor} (lately : Lately shape told actor)
      {machine : Machine} (sized : machine.Sized) (covers : machine.supports shape.needs = true)
      (board : β) (time : Time) (monitored : Bool) {result : Status} {after : Tick β}
      (updated : (Tick.start machine actor board).update ⟨shape, time, monitored⟩ =
        .ok ⟨.ok result, after⟩) : Lately shape after.story after.actor
  | cancel {told : List Happening} {actor : Actor} (lately : Lately shape told actor)
      {machine : Machine} (sized : machine.Sized) (covers : machine.supports shape.needs = true)
      (board : β) (time : Time) (monitored : Bool) {result : Status} {after : Tick β}
      (canceled : (Tick.start machine actor board).cancel ⟨shape, time, monitored⟩ =
        .ok ⟨.ok result, after⟩) : Lately shape [] after.actor
  | setSlot {told : List Happening} {actor after : Actor} (lately : Lately shape told actor)
      (slot : Nat) (status : Status) (set : actor.setSlot slot status = .ok after) :
      Lately shape told after
  | merge {told : List Happening} {actor after : Actor} (lately : Lately shape told actor)
      {atom action resource : Nat} (stands : shape.atom? atom = some (.deferred action resource))
      (known : (actor.outstanding.find? atom).isSome) (status : Status)
      (merged : actor.merge atom status = .ok after) : Lately shape told after

/-- Each run has a latest tick, or none. -/
theorem Run.lately {history : List TickRecord} (run : Run shape history actor) :
    ∃ told, Lately shape told actor := by
  induction run with
  | start id seed handle => exact ⟨[], .start id seed handle⟩
  | update _ sized covers board time monitored updated ih =>
    obtain ⟨told, lately⟩ := ih
    exact ⟨_, lately.update sized covers board time monitored updated⟩
  | cancel _ sized covers board time monitored canceled ih =>
    obtain ⟨told, lately⟩ := ih
    exact ⟨_, lately.cancel sized covers board time monitored canceled⟩
  | setSlot _ slot status set ih =>
    obtain ⟨told, lately⟩ := ih
    exact ⟨told, lately.setSlot slot status set⟩
  | merge _ stands known status merged ih =>
    obtain ⟨told, lately⟩ := ih
    exact ⟨told, lately.merge stands known status merged⟩

namespace Lately

theorem run (lately : Lately shape told actor) : ∃ history, Run shape history actor := by
  induction lately with
  | start id seed handle => exact ⟨[], .start id seed handle⟩
  | update _ sized covers board time monitored updated ih =>
    obtain ⟨history, run⟩ := ih
    exact ⟨_, run.update sized covers board time monitored updated⟩
  | cancel _ sized covers board time monitored canceled ih =>
    obtain ⟨history, run⟩ := ih
    exact ⟨_, run.cancel sized covers board time monitored canceled⟩
  | setSlot _ slot status set ih =>
    obtain ⟨history, run⟩ := ih
    exact ⟨history, run.setSlot slot status set⟩
  | merge _ stands known status merged ih =>
    obtain ⟨history, run⟩ := ih
    exact ⟨history, run.merge stands known status merged⟩

theorem steady (lately : Lately shape told actor) : actor.Steady shape := by
  obtain ⟨history, run⟩ := lately.run
  exact run.steady

end Lately

/-- An actor remembers of the sequences where a story leaves them. -/
def Actor.Remembers (shape : Shape β) (told : List Happening) (actor : Actor) : Prop :=
  ∀ sequence stop, shape.atom? sequence = some (.decider .sequence stop) → ∀ child,
    actor.continuations.find? sequence = some child ↔
      LeftAt shape told sequence stop child ∧ ¬RolledBack shape told sequence

namespace Actor

/-- Where nothing is told, nothing is remembered. -/
theorem remembers_nil (forgotten : ∀ sequence, actor.continuations.find? sequence = none) :
    actor.Remembers shape [] := by
  intro sequence stop stands child
  rw [forgotten]
  constructor
  · rintro ⟨⟩
  · rintro ⟨⟨-, status, -, left, -⟩, -⟩
    cases left

/-- Reports and changes of slots leave the sequences alone. -/
theorem Remembers.between {after : Actor} (remembers : actor.Remembers shape told)
    (same : after.continuations = actor.continuations) : after.Remembers shape told := by
  intro sequence stop stands child
  rw [same]
  exact remembers sequence stop stands child

end Actor

/-- Along a run the actor remembers where the latest tick has left the sequences. -/
theorem Lately.remembers (lately : Lately shape told actor) : actor.Remembers shape told := by
  induction lately with
  | start => exact Actor.remembers_nil fun sequence => rfl
  | @update told actor lately machine sized covers board time monitored result after updated _ =>
    let tick := Tick.start machine actor board
    have fit : tick.Fit ⟨shape, time, monitored⟩ := lately.steady.fit sized covers
    have direct : (tick.scene ⟨shape, time, monitored⟩).Direct := lately.steady.direct
    have recorded := Scene.recorded_update fit.ready direct board
    have story : after.story = ((tick.scene ⟨shape, time, monitored⟩).whole board).tour
        (tick.scene ⟨shape, time, monitored⟩) := fit.story_update updated
    obtain ⟨status, left, updates, taken⟩ :=
      tick.update_taken ⟨shape, time, monitored⟩ lately.steady sized covers
    obtain ⟨-, rfl⟩ : _ ∧ _ := by simpa using updated.symm.trans updates
    intro sequence stop stands child
    rw [taken.performs.continuations_find? taken.sound, story]
    exact recorded sequence stop stands (Nat.zero_le _) child
  | @cancel told actor lately machine sized covers board time monitored result after canceled _ =>
    obtain ⟨left, cancels, taken⟩ := (Tick.start machine actor board).cancel_taken
      ⟨shape, time, monitored⟩ lately.steady sized covers
    obtain ⟨-, rfl⟩ : _ ∧ _ := by simpa using canceled.symm.trans cancels
    apply Actor.remembers_nil
    intro sequence
    rw [Option.eq_none_iff_forall_ne_some]
    intro child found
    have member := (taken.performs.continuations_find? taken.sound sequence child).mp found
    simp [Scene.cancel, abandon, Scene.opening] at member
  | setSlot lately slot status set ih =>
    apply ih.between
    unfold Actor.setSlot at set
    split at set
    · obtain rfl := Except.ok.inj set
      rfl
    · cases set
  | merge lately stands known status merged ih =>
    apply ih.between
    unfold Actor.merge at merged
    split at merged
    · obtain rfl := Except.ok.inj merged
      rfl
    · cases merged

/-- What an actor remembers decides where a sequence starts. -/
theorem Actor.Remembers.start_eq {scene : Scene β}
    (remembers : scene.actor.Remembers scene.shape told) {sequence stop : Nat}
    (stands : scene.shape.atom? sequence = some (.decider .sequence stop)) :
    (∀ child, LeftAt scene.shape told sequence stop child →
      ¬RolledBack scene.shape told sequence → scene.start sequence stop = child) ∧
    ((¬∃ child, LeftAt scene.shape told sequence stop child) ∨
      RolledBack scene.shape told sequence → scene.start sequence stop = sequence + 1) := by
  have known := remembers sequence stop stands
  constructor
  · intro child left spared
    have inside : sequence + 1 ≤ child ∧ child < stop := left.1.within
    simp [Scene.start, (known child).mpr ⟨left, spared⟩, inside]
  · intro anew
    have forgotten : scene.actor.continuations.find? sequence = none := by
      rw [Option.eq_none_iff_forall_ne_some]
      intro child found
      obtain ⟨left, spared⟩ := (known child).mp found
      rcases anew with never | rolledBack
      · exact never ⟨child, left⟩
      · exact spared rolledBack
    simp [Scene.start, forgotten]

/-- Along a run, each sequence that an update visits starts at the child at which the latest tick has
left it active, unless it was rolled back then; in all other cases it starts at its first child. -/
theorem Lately.startsAt (lately : Lately shape told actor) {machine : Machine}
    (sized : machine.Sized) (covers : machine.supports shape.needs = true) (board : β) (time : Time)
    (monitored : Bool) :
    ∃ result after, (Tick.start machine actor board).update ⟨shape, time, monitored⟩ =
        .ok ⟨.ok result, after⟩ ∧
      ∀ sequence stop, shape.atom? sequence = some (.decider .sequence stop) →
        after.Visits sequence →
          (∀ child, LeftAt shape told sequence stop child → ¬RolledBack shape told sequence →
            StartsAt after.story sequence child) ∧
          ((¬∃ child, LeftAt shape told sequence stop child) ∨ RolledBack shape told sequence →
            StartsAt after.story sequence (sequence + 1)) := by
  let tick := Tick.start machine actor board
  let scene := tick.scene ⟨shape, time, monitored⟩
  have fit : tick.Fit ⟨shape, time, monitored⟩ := lately.steady.fit sized covers
  have remembers : scene.actor.Remembers scene.shape told := lately.remembers
  obtain ⟨result, after, updates, taken⟩ :=
    tick.update_taken ⟨shape, time, monitored⟩ lately.steady sized covers
  have story : after.story = (scene.whole board).tour scene := fit.story_update updates
  refine ⟨result, after, updates, fun sequence stop stands visited => ?_⟩
  rw [Tick.Visits, story] at visited
  have starts := Scene.startsAt_update fit.ready taken.reaches stands visited
  obtain ⟨goes_on, starts_anew⟩ := remembers.start_eq stands
  rw [story]
  constructor
  · intro child left spared
    rwa [goes_on child left spared] at starts
  · intro anew
    rwa [starts_anew anew] at starts

namespace Sample

/-- An immediate action that succeeds, and then a deferred one. -/
def errand : Shape Nat where
  atoms := #[.decider .sequence 3, .immediate 0, .deferred 7 3]
  functions := #[fun board seed _ _ => ⟨.success, board + 1, seed⟩]
  survey := ⟨[3], #[], 1, 2, 1, 1⟩
  accepted := by decide

def errandActor : Actor := { Actor.forShape 5 errand with seed := 0, handle := 0 }

/-- The first update of the errand launches the deferred action. -/
theorem story_errand {result : Status} {after : Tick Nat}
    (updated : (Tick.start (.forShape errand) errandActor 0).update ⟨errand, .zero, false⟩ =
      .ok ⟨.ok result, after⟩) :
    after.story = [.entered 0, .entered 1, .left 1 .success, .entered 2, .left 2 .launch,
      .left 0 .launch] := by
  have told : ((Tick.start (.forShape errand) errandActor 0).update
      ⟨errand, .zero, false⟩).toOption.map (fun outcome => outcome.tick.story) =
        some [.entered 0, .entered 1, .left 1 .success, .entered 2, .left 2 .launch,
          .left 0 .launch] := by
    decide +kernel
  rw [updated] at told
  exact Option.some.inj told

end Sample

/-- The second update of the errand goes on at the deferred action. -/
theorem Lately.startsAt_sample : ∃ told actor, Lately Sample.errand told actor ∧
    Sample.errand.atom? 0 = some (.decider .sequence 3) ∧
    LeftAt Sample.errand told 0 3 2 ∧ ¬RolledBack Sample.errand told 0 ∧
    ∃ result after, (Tick.start (.forShape Sample.errand) actor 0).update
        ⟨Sample.errand, .zero, false⟩ = .ok ⟨.ok result, after⟩ ∧
      after.Visits 0 ∧ StartsAt after.story 0 2 := by
  have begun : Lately Sample.errand [] Sample.errandActor := .start 5 0 0
  have sized : (Machine.forShape Sample.errand).Sized := Machine.sized_new _
  have covers : (Machine.forShape Sample.errand).supports Sample.errand.needs = true := by decide
  obtain ⟨_, first, updates, -⟩ := begun.startsAt sized covers 0 .zero false
  have story := Sample.story_errand updates
  have lately := begun.update sized covers 0 .zero false updates
  have stands : Sample.errand.atom? 0 = some (.decider .sequence 3) := rfl
  have child : Sample.errand.IsChild 0 3 2 := .next (.first (by decide)) (by decide)
  have left : LeftAt Sample.errand first.story 0 3 2 := by
    rw [story]
    exact ⟨child, .launch, rfl, by decide, by decide⟩
  have spared : ¬RolledBack Sample.errand first.story 0 := by
    rintro ⟨decider, -, -, before, -⟩
    exact Nat.not_lt_zero decider before
  obtain ⟨result, after, again, starts⟩ := lately.startsAt sized covers 0 .zero false
  have fit : (Tick.start (.forShape Sample.errand) first.actor 0).Fit
      ⟨Sample.errand, .zero, false⟩ := lately.steady.fit sized covers
  have visited : after.Visits 0 := by
    obtain ⟨rest, head⟩ := (((Tick.start (.forShape Sample.errand) first.actor 0).scene
      ⟨Sample.errand, .zero, false⟩).whole 0).tour_head _
    have told := fit.story_update again
    rw [Tick.Visits, told]
    exact List.mem_append_right _ (head ▸ List.mem_cons_self)
  exact ⟨_, _, lately, stands, left, spared, result, after, again, visited,
    (starts 0 3 stands visited).1 2 left spared⟩

end BehaviorTree
