import BehaviorTree.Proofs.Course.Persistent
import BehaviorTree.Proofs.Course.Tour
import BehaviorTree.Proofs.Run.History

namespace BehaviorTree
open Course
variable {β : Type} {atom slot : Nat} {status : Status}

namespace Tick

/-- The changes of the slot of a persistent action. -/
def changesFor (tick : Tick β) (atom : Nat) : List (Entry Status) :=
  tick.machine.changes.contents.toList.filter fun change => decide (change.atom = atom)

/-- How a tick that is over has dealt with a persistent action of an actor whose slot had a status.
-/
structure TendsSlot (after : Tick β) (before : Actor) (atom slot : Nat) (status : Status) :
    Prop where
  stored : before.slots[slot]? = some status
  once : after.changesFor atom = [] ∨ after.changesFor atom = [⟨atom, .cancel⟩]
  slot : after.actor.slots[slot]? =
    some (if after.changesFor atom = [] then status else .cancel)
  canceled : after.changesFor atom ≠ [] ↔
    ¬after.Visits atom ∧ (before.outstanding.find? atom).isSome ∨
      after.Visits atom ∧ status.isActive = true ∧ after.actor.outstanding.find? atom = none
  outstanding : ∀ value, after.actor.outstanding.find? atom = some value ↔
    value = status ∧ after.Visits atom ∧ status.isActive = true ∧ after.changesFor atom = []

end Tick

/-- What is canceled once changes its slot once. -/
theorem Scene.slotChanges_filter {scene : Scene β}
    (stands : scene.shape.atom? atom = some (.persistent slot)) {canceled : List Nat}
    (distinct : canceled.Nodup) :
    (scene.slotChanges canceled).filter (fun change => decide (change.atom = atom)) =
      if atom ∈ canceled then [⟨atom, .cancel⟩] else [] := by
  induction canceled with
  | nil => rfl
  | cons other rest ih =>
    obtain ⟨absent, distinct⟩ := List.nodup_cons.mp distinct
    rw [← List.singleton_append, slotChanges_append, List.filter_append, ih distinct]
    by_cases same : other = atom
    · subst same
      simp [slotChanges, stands, Atom.isPersistent, absent]
    · have unrelated : (scene.slotChanges [other]).filter
          (fun change => decide (change.atom = atom)) = [] := by
        apply List.filter_eq_nil_iff.mpr
        intro change member
        obtain ⟨canceled, within, rfl⟩ := List.mem_map.mp member
        obtain rfl := List.mem_singleton.mp (List.mem_filter.mp within).1
        simpa using same
      rw [unrelated]
      simp [Ne.symm same]

/-- A slot is canceled with its action. -/
theorem Scene.slotsAfter_getElem? {scene : Scene β}
    (stands : scene.shape.atom? atom = some (.persistent slot))
    (stored : scene.actor.slots[slot]? = some status) (canceled : List Nat) :
    (scene.slotsAfter canceled)[slot]? = some (if atom ∈ canceled then .cancel else status) := by
  simp [slotsAfter, stored, scene.shape.slotAtoms_getElem? stands]

namespace Taken
variable {scene : Scene β} {before after : Tick β} {course : Course β}

/-- A persistent action has a slot. -/
theorem stored (taken : Taken scene before course after)
    (stands : scene.shape.atom? atom = some (.persistent slot)) :
    ∃ status, scene.actor.slots[slot]? = some status := by
  have size := ((after.actor.supports_iff _).mp taken.steady.supports).1
  rw [taken.performs.slots, Scene.slotsAfter, Array.size_mapIdx] at size
  obtain ⟨inside, -⟩ := Array.getElem?_eq_some_iff.mp (scene.shape.slotAtoms_getElem? stands)
  have within : slot < scene.actor.slots.size := by
    rw [size]
    exact inside
  exact ⟨scene.actor.slots[slot], Array.getElem?_eq_getElem within⟩

/-- The slot of a persistent action changes exactly if the course cancels the action. -/
theorem changesFor_eq (taken : Taken scene before course after)
    (stands : scene.shape.atom? atom = some (.persistent slot)) :
    after.changesFor atom = if atom ∈ course.canceled then [⟨atom, .cancel⟩] else [] := by
  have distinct := (List.nodup_append.mp taken.sound.single).1
  have changes := taken.performs.changes.filter fun change => decide (change.atom = atom)
  rw [Scene.slotChanges_filter stands distinct] at changes
  by_cases canceled : atom ∈ course.canceled
  · rw [if_pos canceled] at changes ⊢
    exact List.perm_singleton.mp changes
  · rw [if_neg canceled] at changes ⊢
    exact List.perm_nil.mp changes

/-- A tick deals with a persistent action, if that is outstanding only while it is active. -/
theorem tendsSlot (taken : Taken scene before course after)
    (stands : scene.shape.atom? atom = some (.persistent slot))
    (active : scene.wasActive atom = (scene.remembered atom).isSome)
    (visits : after.Visits atom ↔ atom ∈ course.visited) :
    ∃ status, after.TendsSlot scene.actor atom slot status := by
  obtain ⟨status, stored⟩ := taken.stored stands
  have inside : atom < scene.shape.size := by
    rw [← Shape.atom?_isSome_iff, stands]
    rfl
  have follows := (FollowsSlot.opening scene atom status before.board).reaches taken.ready stands
    stored taken.reaches (.opening scene before.board)
  have found := taken.performs.outstanding_find? taken.sound atom
  have changes := taken.changesFor_eq stands
  have unchanged : after.changesFor atom = [] ↔ atom ∉ course.canceled := by
    rw [changes]
    simp
  refine ⟨status, stored, ?_, ?_, ?_, fun value => ?_⟩
  · rw [changes]
    split
    · exact Or.inr rfl
    · exact Or.inl rfl
  · rw [taken.performs.slots, Scene.slotsAfter_getElem? stands stored]
    simp only [unchanged, ite_not]
  · have gone : after.actor.outstanding.find? atom = none ↔
        ∀ value, ⟨atom, value⟩ ∉ course.outstanding := by
      simp only [Option.eq_none_iff_forall_ne_some, ne_eq, found]
    rw [ne_eq, unchanged, not_not, visits, gone]
    constructor
    · intro canceled
      refine (follows.canceled canceled).imp ?_ ?_
      · rintro ⟨unvisited, wasActive⟩
        exact ⟨unvisited, active.symm.trans wasActive⟩
      · rintro ⟨visited, isActive⟩
        exact ⟨visited, isActive, fun value member =>
          ((follows.held value).mp member).2.2.2 canceled⟩
    · rintro (⟨unvisited, known⟩ | ⟨visited, isActive, gone⟩)
      · have dealt := follows.settled.dealt_of_isEmpty taken.settled (active.trans known) inside
        exact dealt.resolve_left unvisited
      · by_contra spared
        exact gone status ((follows.held status).mpr ⟨rfl, isActive, visited, spared⟩)
  · rw [found, follows.held, visits, unchanged]
    exact ⟨fun ⟨same, active, visited, spared⟩ => ⟨same, visited, active, spared⟩,
      fun ⟨same, visited, active, spared⟩ => ⟨same, active, visited, spared⟩⟩

end Taken

namespace Run
variable {shape : Shape β} {history : List TickRecord} {actor : Actor}

/-- Along a run a persistent action is outstanding only while it is active. -/
theorem persistent_active (run : Run shape history actor)
    (stands : shape.atom? atom = some (.persistent slot)) :
    ∀ value, actor.outstanding.find? atom = some value → value.isActive = true := by
  refine run.induction (motive := fun _ actor =>
    ∀ value, actor.outstanding.find? atom = some value → value.isActive = true) ?_ ?_ ?_
  · intro id seed handle value found
    cases found
  · rintro history actor machine board time monitored kind course after - taken - value found
    have member := (taken.performs.outstanding_find? taken.sound atom value).mp found
    exact (taken.sound.outstanding _ member).2.1
  · intro history actor after reports active value found
    rcases reports atom with same | ⟨deferred, -⟩
    · exact active value (same.symm.trans found)
    · rw [stands] at deferred
      cases deferred

/-- Along a run every update and every cancellation deals with each persistent action: its slot keeps
its status unless the action is canceled, and the action is left outstanding with the status of its
slot exactly if it is visited while that is active and is not canceled. -/
theorem tendsSlots (run : Run shape history actor)
    (stands : shape.atom? atom = some (.persistent slot)) {machine : Machine}
    (sized : machine.Sized) (covers : machine.supports shape.needs = true) (board : β) (time : Time)
    (monitored : Bool) :
    (∃ result after status, (Tick.start machine actor board).update ⟨shape, time, monitored⟩ =
        .ok ⟨.ok result, after⟩ ∧ after.TendsSlot actor atom slot status) ∧
    ∃ after status, (Tick.start machine actor board).cancel ⟨shape, time, monitored⟩ =
        .ok ⟨.ok .cancel, after⟩ ∧ after.TendsSlot actor atom slot status := by
  let tick := Tick.start machine actor board
  let scene := tick.scene ⟨shape, time, monitored⟩
  have fit : tick.Fit ⟨shape, time, monitored⟩ := run.steady.fit sized covers
  have active : scene.wasActive atom = (scene.remembered atom).isSome := by
    cases remembered : scene.remembered atom with
    | none => simp [Scene.wasActive, remembered]
    | some value =>
      have := run.persistent_active stands value remembered
      simp [Scene.wasActive, remembered, this]
  constructor
  · obtain ⟨result, after, updates, taken⟩ :=
      tick.update_taken ⟨shape, time, monitored⟩ run.steady sized covers
    have visits : after.Visits atom ↔ atom ∈ (scene.update board).2.visited := by
      have story : after.story = (scene.whole board).tour scene := fit.story_update updates
      rw [Scene.visited_update fit.ready, Happening.mem_filterMap_entry?, Tick.Visits, story]
    obtain ⟨status, tends⟩ := taken.tendsSlot stands active visits
    exact ⟨result, after, status, updates, tends⟩
  · obtain ⟨after, cancels, taken⟩ :=
      tick.cancel_taken ⟨shape, time, monitored⟩ run.steady sized covers
    have visits : after.Visits atom ↔ atom ∈ (scene.cancel board).visited := by
      have story : after.story = [] := fit.story_cancel cancels
      rw [Tick.Visits, story, Scene.cancel, visited_drain]
      simp [abandon, Scene.opening]
    obtain ⟨status, tends⟩ := taken.tendsSlot stands active visits
    exact ⟨after, status, cancels, tends⟩

/-- The persistent action of the sample is visited, and canceled by neither tick. -/
theorem tendsSlots_sample : Run Sample.shape [] Sample.newcomer ∧
    Sample.shape.atom? 3 = some (.persistent 0) ∧
    (∃ result after status, (Tick.start (.forShape Sample.shape) Sample.newcomer 0).update
      Sample.setting = .ok ⟨.ok result, after⟩ ∧ after.TendsSlot Sample.newcomer 3 0 status) ∧
    ∃ after status, (Tick.start (.forShape Sample.shape) Sample.newcomer 0).cancel
      Sample.setting = .ok ⟨.ok .cancel, after⟩ ∧ after.TendsSlot Sample.newcomer 3 0 status :=
  ⟨Sample.run_newcomer, rfl, tendsSlots Sample.run_newcomer rfl (Machine.sized_new _) (by decide) 0
    .zero false⟩

end Run

end BehaviorTree
