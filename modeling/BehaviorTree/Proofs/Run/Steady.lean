import BehaviorTree.Proofs.Course.Tidy
import BehaviorTree.Proofs.Simulation.Update

namespace BehaviorTree
open Ordered
variable {β : Type} {shape : Shape β} {actor : Actor}

/-- What an actor remembers, at no particular time. -/
def Actor.scene (actor : Actor) (shape : Shape β) : Scene β := ⟨{ shape, time := .zero }, actor⟩

/-- A tick may rely on what the actor remembers. -/
structure Actor.Steady (shape : Shape β) (actor : Actor) : Prop where
  supports : actor.supports shape.needs = true
  ascending : actor.isAscending = true
  actions : ∀ entry ∈ actor.outstanding.entries.toList,
    (shape.atom? entry.atom).any Atom.isAction = true
  direct : (actor.scene shape).Direct
  coherent : (actor.scene shape).Coherent fun index => actor.outstanding.find? index = none

namespace Actor

/-- What is outstanding at actions only is not outstanding at deciders. -/
theorem Steady.undecided (steady : actor.Steady shape) :
    ∀ entry ∈ actor.outstanding.entries.toList, entry.value.isActive = true →
      (shape.atom? entry.atom).any Atom.isDecider = false := by
  intro entry member _
  obtain ⟨node, stands, action⟩ := (Option.any_eq_true _ _).mp (steady.actions entry member)
  rw [stands]
  simpa [Atom.isAction] using action

/-- A steady actor fits any machine with enough room. -/
theorem Steady.fit {tick : Tick β} {setting : Setting β} (steady : tick.actor.Steady setting.shape)
    (sized : tick.machine.Sized) (covers : tick.machine.supports setting.shape.needs = true) :
    tick.Fit setting :=
  ⟨sized, covers, steady.supports, steady.ascending, steady.undecided⟩

/-- A new actor is steady. -/
theorem steady_forShape (id : Nat) (shape : Shape β) (seed : Seed) (handle : UInt64) :
    ({ forShape id shape with seed, handle } : Actor).Steady shape where
  supports := by simp [supports, forShape, forNeeds, withRoom, SparseStates.empty,
    SparseStates.capacity]
  ascending := by
    rw [isAscending_iff]
    exact ⟨List.Pairwise.nil, List.Pairwise.nil⟩
  actions entry member := by cases member
  direct sequence stop _ child found := by cases found
  coherent sequence stop _ index _ _ := Or.inl rfl

/-- A change of a slot leaves a steady actor steady. -/
theorem Steady.setSlot (steady : actor.Steady shape) {slot : Nat} {status : Status} {after : Actor}
    (set : actor.setSlot slot status = .ok after) : after.Steady shape := by
  unfold Actor.setSlot at set
  split at set
  · next inside =>
    obtain rfl := Except.ok.inj set
    have supports := steady.supports
    rw [Actor.supports_iff] at supports
    refine ⟨?_, steady.ascending, steady.actions, steady.direct, steady.coherent⟩
    rw [Actor.supports_iff]
    simpa using supports
  · cases set

/-- A report about an action that is outstanding leaves a steady actor steady. -/
theorem Steady.merge (steady : actor.Steady shape) {atom : Nat}
    (known : (actor.outstanding.find? atom).isSome) (status : Status) :
    ∃ after, actor.merge atom status = .ok after ∧ after.Steady shape ∧ after.id = actor.id ∧
      ∀ other, after.outstanding.find? other =
        if other = atom then some status else actor.outstanding.find? other := by
  obtain ⟨continuations, ascending⟩ := actor.isAscending_iff.mp steady.ascending
  obtain ⟨merged, merges, capacity, atoms, ordered, found⟩ :=
    SparseStates.merge?_known ascending known status
  refine ⟨{ actor with outstanding := merged }, ?_, ⟨?_, ?_, ?_, steady.direct, ?_⟩, rfl, found⟩
  · simp only [Actor.merge, merges]
  · have supports := steady.supports
    rw [Actor.supports_iff] at supports ⊢
    simpa [capacity] using supports
  · rw [isAscending_iff]
    exact ⟨continuations, ordered⟩
  · intro entry member
    have present : entry.atom ∈ actor.outstanding.atoms := by
      rw [← atoms]
      exact List.mem_map_of_mem member
    obtain ⟨before, earlier, same⟩ := List.mem_map.mp present
    rw [← same]
    exact steady.actions before earlier
  · intro sequence stop stands index behind before
    apply (steady.coherent sequence stop stands index behind before).imp_left
    intro quiet
    simp only [found]
    have different : index ≠ atom := by
      rintro rfl
      rw [quiet] at known
      cases known
    rw [if_neg different]
    exact quiet

end Actor

namespace Performs
variable {scene : Scene β} {before after : Tick β} {position : Nat} {course : Course β}

/-- The atoms that the new actor has outstanding are those that the course leaves so. -/
theorem outstanding_find? (performs : Performs scene before course after)
    (sound : Sound scene position course) (atom : Nat) (value : Status) :
    after.actor.outstanding.find? atom = some value ↔ ⟨atom, value⟩ ∈ course.outstanding := by
  have entries : after.actor.outstanding.entries.toList = course.outstanding := by
    rw [performs.outstanding]
  rw [SparseStates.find?_eq_some_iff (by rw [entries]; exact sound.ascending), entries]

/-- The child that the new actor remembers of a sequence is the one that the course has recorded. -/
theorem continuations_find? (performs : Performs scene before course after)
    (sound : Sound scene position course) (sequence child : Nat) :
    after.actor.continuations.find? sequence = some child ↔
      ⟨sequence, child⟩ ∈ course.continuations := by
  have perm := sortByKey_perm course.continuations.toArray
  have ascending := (sortByKey_nonDecreasing course.continuations.toArray).ascending
    ((perm.map key).nodup_iff.mpr sound.distinct)
  rw [← performs.continuations] at perm ascending
  rw [SparseStates.find?_eq_some_iff ascending, perm.mem_iff]

/-- What a tidy course leaves makes a steady actor. -/
theorem steady (performs : Performs scene before course after) (sound : Sound scene position course)
    (supports : scene.actor.supports scene.shape.needs = true) (records : course.Records scene)
    (settled : course.pending.isEmpty = true)
    (confined : ∀ sequence stop, scene.shape.atom? sequence = some (.decider .sequence stop) →
      course.Confined scene sequence stop) : after.actor.Steady scene.shape := by
  have found := performs.outstanding_find? sound
  have remembered := performs.continuations_find? sound
  refine ⟨?_, performs.ascending sound, ?_, ?_, ?_⟩
  · rw [Actor.supports_iff] at supports ⊢
    rw [performs.continuations_capacity, performs.outstanding_capacity, performs.slots]
    simpa [Scene.slotsAfter] using supports
  · intro entry member
    rw [performs.outstanding] at member
    exact (sound.outstanding entry member).2.2
  · intro sequence stop stands child known _ _
    exact records _ ((remembered sequence child).mp known) stop stands
  · intro sequence stop stands index behind inside
    cases left : after.actor.outstanding.find? index with
    | none => exact Or.inl left
    | some value =>
      have keeps : course.Keeps ⟨index, value⟩ := ⟨(found index value).mp left, Or.inl settled⟩
      obtain ⟨child, recorded, from_, reached, within⟩ :=
        confined sequence stop stands _ keeps behind inside
      simp only at reached within
      have known := (remembered sequence child).mpr recorded
      have start : (after.actor.scene scene.shape).start sequence stop = child := by
        have inside : child < stop := by omega
        have from_ : sequence + 1 ≤ child := from_
        simp [Scene.start, Actor.scene, known, from_, inside]
      rw [start]
      exact Or.inr ⟨reached, within⟩

end Performs

/-- A tick of a steady actor: its course goes through the whole shape and passes nothing that was
active, and in the end nothing is left to cancel; the tick has done what the course says, and its
actor is steady again. -/
structure Taken (scene : Scene β) (before : Tick β) (course : Course β) (after : Tick β) :
    Prop where
  performs : Performs scene before course after
  ready : scene.Ready
  reaches : Reaches scene (fun index => scene.wasActive index = false) 0
    (scene.opening before.board) scene.shape.size course
  settled : course.pending.isEmpty = true
  steady : after.actor.Steady scene.shape

namespace Taken
variable {scene : Scene β} {before after : Tick β} {course : Course β}

theorem sound (taken : Taken scene before course after) : Sound scene scene.shape.size course :=
  (Sound.opening scene before.board).reaches taken.ready taken.reaches

end Taken

/-- What is coherent where nothing is remembered is coherent where nothing was active. -/
theorem Actor.Steady.coherent_wasActive {tick : Tick β} {setting : Setting β}
    (steady : tick.actor.Steady setting.shape) :
    (tick.scene setting).Coherent fun index => (tick.scene setting).wasActive index = false := by
  intro sequence stop stands index behind before
  apply (steady.coherent sequence stop stands index behind before).imp_left
  intro quiet
  simp [Scene.wasActive, Scene.remembered, Tick.scene, quiet]

namespace Tick
variable (tick : Tick β) (setting : Setting β) (steady : tick.actor.Steady setting.shape)
  (sized : tick.machine.Sized) (covers : tick.machine.supports setting.shape.needs = true)
include steady sized covers

/-- An update of a steady actor is taken. -/
theorem update_taken : ∃ status after, tick.update setting = .ok ⟨.ok status, after⟩ ∧
    Taken (tick.scene setting) tick ((tick.scene setting).update tick.board).2 after := by
  have fit := steady.fit sized covers
  obtain ⟨after, completes, performs⟩ := fit.update_performs
  have reaches := Scene.update_reaches fit.ready steady.coherent_wasActive tick.board
  have sound := (Sound.opening (tick.scene setting) tick.board).reaches fit.ready reaches
  have direct : (tick.scene setting).Direct := steady.direct
  obtain ⟨tidy, settled⟩ := Scene.tidy_update fit.ready direct tick.board
  refine ⟨_, after, completes.complete_eq, performs, fit.ready, reaches, settled, ?_⟩
  apply performs.steady sound steady.supports tidy.records settled
  intro sequence stop stands
  apply tidy.confined sequence stop stands (Nat.zero_le _)
  rw [← Shape.atom?_isSome_iff, stands]
  rfl

/-- A cancellation of a steady actor is taken. -/
theorem cancel_taken : ∃ after, tick.cancel setting = .ok ⟨.ok .cancel, after⟩ ∧
    Taken (tick.scene setting) tick ((tick.scene setting).cancel tick.board) after := by
  have fit := steady.fit sized covers
  obtain ⟨after, completes, performs⟩ := fit.cancel_performs
  have reaches := (tick.scene setting).cancel_reaches
    (fun index => (tick.scene setting).wasActive index = false) tick.board
  have sound := (Sound.opening (tick.scene setting) tick.board).reaches fit.ready reaches
  have settled : ((tick.scene setting).cancel tick.board).pending.isEmpty = true :=
    Course.isEmpty_pending_drain _ _
  have unrecorded : ((tick.scene setting).cancel tick.board).continuations = [] := by
    simp [Scene.cancel, Course.abandon, Scene.opening]
  refine ⟨after, completes.complete_eq, performs, fit.ready, reaches, settled, ?_⟩
  refine performs.steady sound steady.supports ?_ settled ?_
  · intro entry member
    rw [unrecorded] at member
    cases member
  · intro sequence stop _ entry keeps
    have given := (Course.keeps_drain _ entry).mp keeps
    cases given.1

end Tick

end BehaviorTree
