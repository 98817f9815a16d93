import BehaviorTree.Proofs.Course.Move

namespace BehaviorTree
open Course
variable {β : Type} {scene : Scene β} {atom slot position : Nat} {status : Status}
  {course : Course β}

/-- How a persistent action whose slot has a status stands in the course of a tick. -/
structure Course.FollowsSlot (scene : Scene β) (atom : Nat) (status : Status) (position : Nat)
    (course : Course β) : Prop where
  visited : atom ∈ course.visited → atom < course.frontier
  held : ∀ value, ⟨atom, value⟩ ∈ course.outstanding ↔
    value = status ∧ status.isActive = true ∧ atom ∈ course.visited ∧ atom ∉ course.canceled
  canceled : atom ∈ course.canceled →
    atom ∉ course.visited ∧ scene.wasActive atom = true ∨
      atom ∈ course.visited ∧ status.isActive = true
  settled : course.Settles scene atom position (atom ∈ course.visited ∨ atom ∈ course.canceled)

namespace Course.FollowsSlot

theorem opening (scene : Scene β) (atom : Nat) (status : Status) (board : β) :
    (scene.opening board).FollowsSlot scene atom status 0 where
  visited member := by cases member
  held value := by simp [Scene.opening]
  canceled member := by cases member
  settled := .opening scene atom _ _

theorem drain (ready : scene.Ready) (stands : scene.shape.atom? atom = some (.persistent slot))
    (follows : course.FollowsSlot scene atom status position) :
    (course.drain scene).FollowsSlot scene atom status position := by
  by_cases empty : course.pending.isEmpty = true
  · rw [drain_of_isEmpty scene empty]
    exact follows
  rw [Bool.not_eq_true] at empty
  obtain ⟨board, seed, calls, drained⟩ := drain_eq scene empty
  have toCancel : atom ∈ course.toCancel scene ↔
      (course.pending.contains atom = true ∧ course.frontier ≤ atom ∧
        scene.wasActive atom = true) ∨
      ⟨atom, status⟩ ∈ course.outstanding ∧ course.pending.start ≤ atom := by
    rw [mem_toCancel ready]
    apply or_congr_right
    constructor
    · rintro ⟨⟨other, value⟩, member, rfl, behind, -⟩
      obtain ⟨rfl, -⟩ := (follows.held value).mp member
      exact ⟨member, behind⟩
    · rintro ⟨member, behind⟩
      obtain ⟨-, active, -⟩ := (follows.held status).mp member
      exact ⟨_, member, rfl, behind, by simp [Scene.owes, stands, Atom.isDeferred, active]⟩
  rw [drained]
  refine ⟨fun member => ?_, fun value => ?_, fun member => ?_, fun active before => Or.inl ?_⟩
  · exact Nat.lt_of_lt_of_le (follows.visited member) (Nat.le_max_left _ _)
  · simp only [List.mem_filter, decide_eq_true_eq, List.mem_append, not_or]
    constructor
    · rintro ⟨member, below⟩
      obtain ⟨same, active, visited, spared⟩ := (follows.held value).mp member
      refine ⟨same, active, visited, spared, fun now => ?_⟩
      have := follows.visited visited
      rcases toCancel.mp now with ⟨-, ahead, -⟩ | ⟨-, behind⟩
      · omega
      · omega
    · rintro ⟨rfl, active, visited, spared, stays⟩
      have member := (follows.held value).mpr ⟨rfl, active, visited, spared⟩
      exact ⟨member, Nat.lt_of_not_le fun behind => stays (toCancel.mpr (Or.inr ⟨member, behind⟩))⟩
  · rcases List.mem_append.mp member with earlier | now
    · exact follows.canceled earlier
    · rcases toCancel.mp now with ⟨-, ahead, active⟩ | ⟨member, -⟩
      · refine Or.inl ⟨fun visited => ?_, active⟩
        have := follows.visited visited
        omega
      · obtain ⟨-, active, visited, -⟩ := (follows.held status).mp member
        exact Or.inr ⟨visited, active⟩
  · rcases follows.settled active before with (visited | canceled) | ⟨ahead, covered⟩
    · exact Or.inl visited
    · exact Or.inr (List.mem_append_left _ canceled)
    · exact Or.inr (List.mem_append_right _ (toCancel.mpr (Or.inl ⟨covered, ahead, active⟩)))

theorem visit {leaf : Leaf} (stands : scene.shape.atom? atom = some (.persistent slot))
    (stored : scene.actor.slots[slot]? = some status)
    (here : scene.shape.atom? position = some leaf.atom) (empty : course.pending.isEmpty = true)
    (sound : Sound scene position course)
    (follows : course.FollowsSlot scene atom status position) :
    (course.visit scene position leaf).2.FollowsSlot scene atom status (position + 1) := by
  by_cases same : position = atom
  · subst same
    obtain rfl : leaf = .persistent slot := by
      rw [here] at stands
      cases leaf <;> cases stands
      rfl
    have outstanding := course.outstanding_visit_persistent scene position stored
    obtain ⟨delivered, added, entry, request, board, seed, -, visited⟩ :=
      course.visit_eq scene position (.persistent slot)
    have fresh (value : Status) : ⟨position, value⟩ ∉ course.outstanding := fun member =>
      Nat.lt_irrefl position (sound.outstanding_lt member)
    have spared : position ∉ course.canceled := fun member =>
      Nat.lt_irrefl position (sound.canceled_lt member)
    rw [visited] at outstanding ⊢
    refine ⟨fun _ => Nat.lt_succ_self _, fun value => ?_,
      fun member => absurd member spared, fun _ _ => Or.inl (Or.inl (by simp))⟩
    rw [outstanding]
    by_cases active : status.isActive = true
    · simp [active, fresh, spared]
    · simp [active, fresh]
  · obtain ⟨delivered, added, entry, request, board, seed, -, visited⟩ :=
      course.visit_eq scene position leaf
    have frontier := sound.frontier_le
    have unvisited : atom ∈ course.visited ++ [position] ↔ atom ∈ course.visited := by
      simp [Ne.symm same]
    rw [visited]
    refine ⟨fun member => ?_, fun value => ?_, fun member => ?_, fun active before => Or.inl ?_⟩
    · have := follows.visited (unvisited.mp member)
      exact Nat.lt_succ_of_lt (Nat.lt_of_lt_of_le this frontier)
    · simp only [unvisited, ← follows.held value]
      simp [same]
    · simp only [unvisited]
      exact follows.canceled member
    · simp only [unvisited]
      exact follows.settled.dealt_of_isEmpty empty active (by omega)

/-- What is abandoned is settled up to its end. -/
theorem abandon (follows : course.FollowsSlot scene atom status position) {start stop : Nat}
    (frontier : course.frontier ≤ position) (from_ : start ≤ position) :
    (course.abandon ⟨start, stop⟩).FollowsSlot scene atom status stop where
  visited := follows.visited
  held := follows.held
  canceled := follows.canceled
  settled := follows.settled.abandon frontier from_

/-- Every move keeps the account of a slot. -/
theorem move (ready : scene.Ready) (stands : scene.shape.atom? atom = some (.persistent slot))
    (stored : scene.actor.slots[slot]? = some status) {later : Nat} {after : Course β}
    (move : Move scene (fun index => scene.wasActive index = false) position course later after)
    (sound : Sound scene position course)
    (follows : course.FollowsSlot scene atom status position) :
    after.FollowsSlot scene atom status later := by
  cases move with
  | drain => exact follows.drain ready stands
  | enter here =>
    have different : atom ≠ position := by
      rintro rfl
      rw [stands] at here
      cases here
    have unvisited : atom ∈ course.visited ++ [position] ↔ atom ∈ course.visited := by
      simp [different]
    refine ⟨fun member => follows.visited (unvisited.mp member), fun value => ?_,
      fun member => ?_, ?_⟩
    · simp only [Course.enter, unvisited]
      exact follows.held value
    · simp only [Course.enter, unvisited]
      exact follows.canceled member
    · simp only [Course.enter, unvisited]
      exact follows.settled.pass fun reached before => absurd (by omega) different
  | visit here empty => exact follows.visit stands stored here empty sound
  | pass _ _ skipped => exact { follows with settled := follows.settled.pass (skipped atom) }
  | record => exact ⟨follows.visited, follows.held, follows.canceled, follows.settled⟩
  | abandon => exact follows.abandon sound.frontier_le (Nat.le_refl _)
  | @fail decider _ _ entered _ passed =>
    have abandoned : (course.abandon ⟨decider, later⟩).FollowsSlot scene atom status later :=
      follows.abandon sound.frontier_le (Nat.le_of_lt passed)
    exact ⟨abandoned.visited, abandoned.held, abandoned.canceled, abandoned.settled⟩

/-- A run of moves keeps the account of a slot. -/
theorem reaches (ready : scene.Ready) (stands : scene.shape.atom? atom = some (.persistent slot))
    (stored : scene.actor.slots[slot]? = some status) {later : Nat} {after : Course β}
    (reaches : Reaches scene (fun index => scene.wasActive index = false) position course later
      after)
    (sound : Sound scene position course)
    (follows : course.FollowsSlot scene atom status position) :
    after.FollowsSlot scene atom status later :=
  sound.invariant ready
    (fun _ _ _ _ last sound follows => FollowsSlot.move ready stands stored last sound follows)
    reaches follows

end Course.FollowsSlot

end BehaviorTree
