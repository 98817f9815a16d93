import BehaviorTree.Proofs.Course.Choice
import BehaviorTree.Proofs.Run.Sessions

namespace BehaviorTree
open Course Ordered
variable {β : Type}

/-- The sparse arrays of an actor ascend, speak of sequences and actions, and fit together. -/
structure Actor.WellFormed (shape : Shape β) (actor : Actor) : Prop where
  continuations_ascending : Ascending actor.continuations.entries.toList
  children : ∀ entry ∈ actor.continuations.entries.toList, ∃ stop,
    shape.atom? entry.atom = some (.decider .sequence stop) ∧
      shape.IsChild entry.atom stop entry.value
  outstanding_ascending : Ascending actor.outstanding.entries.toList
  actions : ∀ entry ∈ actor.outstanding.entries.toList,
    (shape.atom? entry.atom).any Atom.isAction = true ∧
      (entry.value = .launch ∨ entry.value = .running)
  immediate : ∀ entry ∈ actor.outstanding.entries.toList, ∀ function,
    shape.atom? entry.atom = some (.immediate function) → entry.value = .running
  enclosed : ∀ entry ∈ actor.outstanding.entries.toList, ∀ sequence stop,
    shape.atom? sequence = some (.decider .sequence stop) →
    sequence < entry.atom → entry.atom < stop →
      ∃ child, ⟨sequence, child⟩ ∈ actor.continuations.entries.toList ∧
        shape.IsChild sequence stop child ∧
        child ≤ entry.atom ∧ entry.atom < shape.stopAt child
  used : ∀ entry ∈ actor.continuations.entries.toList,
    ∃ action ∈ actor.outstanding.entries.toList,
      entry.value ≤ action.atom ∧ action.atom < shape.stopAt entry.value
  chosen : ∀ priority stop, shape.atom? priority = some (.decider .dynamicPriority stop) →
    ∃ child, shape.IsChild priority stop child ∧
      ∀ entry ∈ actor.outstanding.entries.toList, priority < entry.atom → entry.atom < stop →
        child ≤ entry.atom ∧ entry.atom < shape.stopAt child

/-- What an update of a steady actor leaves is well-formed. -/
theorem Taken.wellFormed {scene : Scene β} {before after : Tick β} (direct : scene.Direct)
    (taken : Taken scene before (scene.update before.board).2 after) :
    after.actor.WellFormed scene.shape := by
  have ready := taken.ready
  have sound := taken.sound
  have performs := taken.performs
  obtain ⟨tidy, settled⟩ := Scene.tidy_update ready direct before.board
  have traces := Scene.traces_update ready before.board
  have chosen := Scene.chosen_update ready direct before.board
  generalize scene.update before.board = left at *
  have ascending := after.actor.isAscending_iff.mp taken.steady.ascending
  have outstanding (entry : Entry Status) :
      entry ∈ after.actor.outstanding.entries.toList ↔ left.2.Keeps entry := by
    rw [performs.outstanding]
    exact ⟨fun member => ⟨member, Or.inl settled⟩, fun keeps => keeps.1⟩
  have continuations (entry : Entry Nat) :
      entry ∈ after.actor.continuations.entries.toList ↔ entry ∈ left.2.continuations := by
    rw [performs.continuations]
    exact (sortByKey_perm left.2.continuations.toArray).mem_iff
  refine ⟨ascending.1, fun entry member => ?_, ascending.2, fun entry member => ⟨?_, ?_⟩,
    fun entry member function stands => ?_,
    fun entry member sequence stop stands behind inside => ?_, fun entry member => ?_,
    fun priority stop stands => ?_⟩
  · rw [continuations] at member
    obtain ⟨-, sequence⟩ := sound.continuations entry member
    obtain ⟨node, stands, isSequence⟩ := (Option.any_eq_true _ _).mp sequence
    cases node with
    | decider rule stop =>
      cases rule with
      | sequence => exact ⟨stop, stands, tidy.records entry member stop stands⟩
      | dynamicPriority | concurrent => cases isSequence
    | immediate | deferred | persistent => cases isSequence
  · exact (sound.outstanding entry ((outstanding entry).mp member).1).2.2
  · have active := (sound.outstanding entry ((outstanding entry).mp member).1).2.1
    generalize entry.value = status at active
    cases status with
    | launch => exact Or.inl rfl
    | running => exact Or.inr rfl
    | success | fail | cancel => cases active
  · obtain ⟨isOpen, -, -, session⟩ := taken.exchange stands
    rw [(performs.outstanding_find? sound entry.atom entry.value).mpr
      ((outstanding entry).mp member).1] at session
    cases isOpen with
    | true => exact Option.some.inj session
    | false => cases session
  · obtain ⟨child, recorded, -, reached, within⟩ := tidy.confined sequence stop stands
      (Nat.zero_le _) (Nat.lt_of_lt_of_le (Nat.lt_trans behind inside)
        (scene.shape.has_child stands).2) entry ((outstanding entry).mp member) behind inside
    exact ⟨child, (continuations _).mpr recorded, tidy.records _ recorded stop stands, reached,
      within⟩
  · obtain ⟨kept, keeps, within⟩ :=
      traces.recorded entry ((continuations entry).mp member) (Nat.zero_le _)
    exact ⟨kept, (outstanding kept).mpr keeps, within⟩
  · have inside : priority < scene.shape.size := by
      have := scene.shape.has_child stands
      omega
    obtain ⟨child, isChild, within⟩ := chosen priority stop stands (Nat.zero_le _) inside
    exact ⟨child, isChild, fun entry member => within entry ((outstanding entry).mp member)⟩

namespace Run
variable {shape : Shape β} {history : List TickRecord} {actor : Actor}

/-- Every update along a run leaves a well-formed actor. -/
theorem update_wellFormed (run : Run shape history actor) {machine : Machine}
    (sized : machine.Sized) (covers : machine.supports shape.needs = true) (board : β) (time : Time)
    (monitored : Bool) :
    ∃ result after, (Tick.start machine actor board).update ⟨shape, time, monitored⟩ =
      .ok ⟨.ok result, after⟩ ∧ after.actor.WellFormed shape := by
  let tick := Tick.start machine actor board
  obtain ⟨result, after, updates, taken⟩ :=
    tick.update_taken ⟨shape, time, monitored⟩ run.steady sized covers
  have direct : (tick.scene ⟨shape, time, monitored⟩).Direct := run.steady.direct
  exact ⟨result, after, updates, taken.wellFormed direct⟩

end Run

namespace Sample

/-- A sequence that goes on to a dynamic priority, whose second child is a sequence again. -/
def itinerary : Shape Nat where
  atoms := #[.decider .sequence 8, .immediate 0, .decider .dynamicPriority 7, .persistent 0,
    .decider .sequence 7, .immediate 0, .deferred 7 3, .immediate 0]
  functions := #[fun board seed _ _ => ⟨.success, board + 1, seed⟩]
  survey := ⟨[8], #[3], 2, 5, 3, 1⟩
  accepted := by decide

/-- A new actor whose persistent action was reported to fail. -/
def traveler : Actor :=
  { Actor.forShape 5 itinerary with seed := 0, handle := 0, slots := #[.fail] }

theorem run_traveler : Run itinerary [] traveler := .setSlot (.start 5 0 0) 0 .fail rfl

end Sample

namespace Run

/-- The first update of the sample launches the deferred action in the second child of the priority,
and both sequences remember the way to it. -/
theorem update_wellFormed_sample : Run Sample.itinerary [] Sample.traveler ∧
    ∃ after, (Tick.start (.forShape Sample.itinerary) Sample.traveler 0).update
        ⟨Sample.itinerary, .zero, false⟩ = .ok ⟨.ok .launch, after⟩ ∧
      after.actor.continuations.entries = #[⟨0, 2⟩, ⟨4, 6⟩] ∧
      after.actor.outstanding.entries = #[⟨6, .launch⟩] ∧
      after.actor.WellFormed Sample.itinerary := by
  have sized : (Machine.forShape Sample.itinerary).Sized := Machine.sized_new _
  have covers : (Machine.forShape Sample.itinerary).supports Sample.itinerary.needs = true := by
    decide
  obtain ⟨result, after, updated, wellFormed⟩ :=
    update_wellFormed Sample.run_traveler sized covers 0 .zero false
  have left : ((Tick.start (.forShape Sample.itinerary) Sample.traveler 0).update
      ⟨Sample.itinerary, .zero, false⟩).toOption.map (fun outcome => (outcome.answer.toOption,
        outcome.tick.actor.continuations.entries, outcome.tick.actor.outstanding.entries)) =
      some (some .launch, #[⟨0, 2⟩, ⟨4, 6⟩], #[⟨6, .launch⟩]) := by
    decide +kernel
  rw [updated] at left
  obtain ⟨answer, remembered⟩ := Prod.mk.inj (Option.some.inj left)
  obtain ⟨continuations, outstanding⟩ := Prod.mk.inj remembered
  obtain rfl := Option.some.inj answer
  exact ⟨Sample.run_traveler, after, updated, continuations, outstanding, wellFormed⟩

end Run

end BehaviorTree
