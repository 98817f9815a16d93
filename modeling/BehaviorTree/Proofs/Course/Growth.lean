import BehaviorTree.Proofs.Course.Interpret

namespace BehaviorTree

namespace Course
variable {β : Type} {scene : Scene β}

/-- An entry of this tick that is not given up. -/
def Keeps (course : Course β) (entry : Entry Status) : Prop :=
  entry ∈ course.outstanding ∧
    (course.pending.isEmpty = true ∨ entry.atom < course.pending.start)

/-- From an index on, things are added; before it, nothing changes. -/
structure Grows (index : Nat) (before after : Course β) : Prop where
  continuations : ∃ added, after.continuations = before.continuations ++ added ∧
    ∀ entry ∈ added, index ≤ entry.atom
  launches : ∃ added, after.launches = before.launches ++ added ∧
    ∀ request ∈ added, index ≤ request.atom
  keeps : ∀ entry, entry.atom < index → (after.Keeps entry ↔ before.Keeps entry)

/-- What a drain gives up had been given up before. -/
theorem keeps_drain (course : Course β) (entry : Entry Status) :
    (course.drain scene).Keeps entry ↔ course.Keeps entry := by
  by_cases empty : course.pending.isEmpty = true
  · rw [drain_of_isEmpty scene empty]
  · obtain ⟨board, seed, calls, drained⟩ := drain_eq scene (Bool.eq_false_iff.mpr empty)
    rw [drained]
    simp [Keeps, empty]

/-- To abandon a span gives up the entries from its start on. -/
theorem keeps_abandon {course : Course β} {span : Span} (nonempty : span.start < span.stop)
    (entry : Entry Status) :
    (course.abandon span).Keeps entry ↔ course.Keeps entry ∧ entry.atom < span.start := by
  have second : span.isEmpty = false := span.isEmpty_eq_false_iff.mpr nonempty
  by_cases empty : course.pending.isEmpty = true
  · have covered := Span.cover_isEmpty empty second
    simp [Keeps, abandon, covered, second, empty]
  · rw [Bool.not_eq_true] at empty
    have covered := Span.cover_nonempty empty second
    have still : (course.pending.cover span).isEmpty = false := by
      rw [Span.isEmpty_eq_false_iff] at empty ⊢
      rw [covered]
      simp only
      omega
    rw [covered] at still
    simp only [Keeps, abandon, covered, still, empty, Bool.false_eq_true, false_or, Nat.lt_min,
      and_assoc]

theorem abandon_isEmpty {course : Course β} {span : Span} (empty : span.stop ≤ span.start) :
    course.abandon span = course := by
  rw [← Span.isEmpty_iff] at empty
  rw [abandon, Span.cover_of_isEmpty empty]

/-- To abandon a span keeps nothing new. -/
theorem keeps_of_abandon {course : Course β} {span : Span} {entry : Entry Status}
    (kept : (course.abandon span).Keeps entry) : course.Keeps entry := by
  rcases Nat.lt_or_ge span.start span.stop with nonempty | empty
  · exact ((keeps_abandon nonempty entry).mp kept).1
  · rwa [abandon_isEmpty empty] at kept

namespace Grows
variable {index : Nat} {before after : Course β}

theorem refl (index : Nat) (course : Course β) : Grows index course course :=
  ⟨⟨[], by simp⟩, ⟨[], by simp⟩, fun _ _ => Iff.rfl⟩

theorem trans {middle : Course β} (first : Grows index before middle)
    (second : Grows index middle after) : Grows index before after := by
  obtain ⟨recorded, recorded_eq, recorded_from⟩ := first.continuations
  obtain ⟨more, more_eq, more_from⟩ := second.continuations
  obtain ⟨launched, launched_eq, launched_from⟩ := first.launches
  obtain ⟨others, others_eq, others_from⟩ := second.launches
  refine ⟨⟨recorded ++ more, ?_, ?_⟩, ⟨launched ++ others, ?_, ?_⟩, fun entry earlier => ?_⟩
  · rw [more_eq, recorded_eq, List.append_assoc]
  · intro entry member
    rcases List.mem_append.mp member with member | member
    · exact recorded_from entry member
    · exact more_from entry member
  · rw [others_eq, launched_eq, List.append_assoc]
  · intro request member
    rcases List.mem_append.mp member with member | member
    · exact launched_from request member
    · exact others_from request member
  · rw [second.keeps entry earlier, first.keeps entry earlier]

/-- What is added from an index on is added from any earlier one on. -/
theorem mono {earlier : Nat} (grows : Grows index before after) (below : earlier ≤ index) :
    Grows earlier before after := by
  obtain ⟨recorded, recorded_eq, recorded_from⟩ := grows.continuations
  obtain ⟨launched, launched_eq, launched_from⟩ := grows.launches
  exact ⟨⟨recorded, recorded_eq, fun entry member =>
      Nat.le_trans below (recorded_from entry member)⟩,
    ⟨launched, launched_eq, fun request member =>
      Nat.le_trans below (launched_from request member)⟩,
    fun entry lower => grows.keeps entry (Nat.lt_of_lt_of_le lower below)⟩

/-- A sequence that had no continuation gets none where only later nodes are gone through. -/
theorem unrecorded (grows : Grows index before after) {sequence : Nat} (below : sequence < index)
    (unrecorded : ∀ entry ∈ before.continuations, entry.atom ≠ sequence) :
    ∀ entry ∈ after.continuations, entry.atom ≠ sequence := by
  obtain ⟨added, added_eq, added_from⟩ := grows.continuations
  intro entry member
  rw [added_eq] at member
  rcases List.mem_append.mp member with earlier | now
  · exact unrecorded entry earlier
  · have := added_from entry now
    omega

theorem drain (index : Nat) (course : Course β) : Grows index course (course.drain scene) :=
  ⟨⟨[], by simp⟩, ⟨[], by simp⟩, fun entry _ => course.keeps_drain entry⟩

theorem enter (index decider : Nat) (course : Course β) :
    Grows index course (course.enter decider) :=
  ⟨⟨[], by simp [Course.enter]⟩, ⟨[], by simp [Course.enter]⟩, fun _ _ => Iff.rfl⟩

theorem visit (atom : Nat) (leaf : Leaf) (course : Course β) :
    Grows atom course (course.visit scene atom leaf).2 := by
  obtain ⟨status, added, entry, request, board, seed, delivers, visited⟩ :=
    course.visit_eq scene atom leaf
  rw [visited]
  refine ⟨⟨[], by simp⟩, ⟨request.toList, rfl, fun launch member => ?_⟩, fun other lower => ?_⟩
  · have launched := delivers.launched_of_request (Option.mem_toList.mp member)
    exact Nat.le_of_eq launched.1.symm
  · have distinct : other ∉ entry.toList.map fun value => (⟨atom, value⟩ : Entry Status) := by
      intro member
      obtain ⟨value, -, rfl⟩ := List.mem_map.mp member
      exact Nat.lt_irrefl _ lower
    simp only [Keeps, List.mem_append, distinct, or_false]

theorem record (sequence child : Nat) (course : Course β) :
    Grows sequence course (course.record sequence child) :=
  ⟨⟨[⟨sequence, child⟩], rfl, by simp⟩, ⟨[], by simp [Course.record]⟩, fun _ _ => Iff.rfl⟩

theorem abandon (span : Span) (course : Course β) :
    Grows span.start course (course.abandon span) := by
  refine ⟨⟨[], by simp [Course.abandon]⟩, ⟨[], by simp [Course.abandon]⟩, fun entry lower => ?_⟩
  rcases Nat.lt_or_ge span.start span.stop with nonempty | empty
  · rw [keeps_abandon nonempty]
    exact and_iff_left lower
  · rw [abandon_isEmpty empty]

/-- What was added is taken back. -/
theorem takeBack (grows : Grows index before after) :
    Grows index before (after.takeBack before) :=
  ⟨⟨[], by simp [Course.takeBack]⟩, ⟨[], by simp [Course.takeBack]⟩, grows.keeps⟩

end Grows

end Course

open Course
variable {β : Type} {scene : Scene β}

namespace Forest

/-- Each smaller tree leaves alone what lies before it. -/
def AllGrow (scene : Scene β) (size : Nat) : Prop :=
  ∀ tree : Tree, tree.size ≤ size → ∀ index course,
    Grows index course (tree.interpret scene index course).2

theorem AllGrow.mono {smaller larger : Nat} (trees : AllGrow scene larger)
    (less : smaller ≤ larger) : AllGrow scene smaller :=
  fun tree bounded => trees tree (Nat.le_trans bounded less)

theorem grows_sequence {decider start index : Nat} {forest : List Tree} (behind : decider ≤ index)
    (trees : AllGrow scene (size forest)) (course : Course β) :
    Grows decider course (sequence scene decider start index forest course).2 := by
  induction index, forest using sequence_induction start generalizing course with
  | nil index =>
    rw [sequence_nil]
    exact .refl decider course
  | skip index tree rest skipped ih =>
    rw [sequence_skip scene skipped]
    exact ih (by omega) (trees.mono (size_le_rest tree rest)) course
  | opened index rule children rest before within ih =>
    rw [sequence_open scene before within]
    exact ih (by omega) (trees.mono (size_le_opened rule children rest)) course
  | visit index tree rest reached ih =>
    rw [sequence_visit scene reached]
    have first := (trees tree (size_le_first tree rest) index course).mono behind
    generalize tree.interpret scene index course = visited at first
    by_cases success : visited.1 = .success
    · rw [if_pos success]
      exact first.trans (ih (by omega) (trees.mono (size_le_rest tree rest)) _)
    · rw [if_neg success]
      by_cases active : visited.1.isActive = true
      · rw [if_pos active]
        exact first.trans (.record decider index visited.2)
      · rw [if_neg active]
        exact first

theorem grows_dynamicPriority {decider stop index : Nat} {forest : List Tree}
    (behind : decider ≤ index) (trees : AllGrow scene (size forest)) (course : Course β) :
    Grows decider course (dynamicPriority scene stop index forest course).2 := by
  induction forest generalizing index course with
  | nil =>
    rw [dynamicPriority]
    exact .refl decider course
  | cons tree rest ih =>
    rw [dynamicPriority_cons]
    have first := (trees tree (size_le_first tree rest) index course).mono behind
    generalize tree.interpret scene index course = visited at first
    by_cases fail : visited.1 = .fail
    · rw [if_pos fail]
      exact first.trans (ih (by omega) (trees.mono (size_le_rest tree rest)) _)
    · rw [if_neg fail]
      exact first.trans ((Grows.abandon ⟨index + tree.size, stop⟩ visited.2).mono
        (Nat.le_trans behind (Nat.le_add_right _ _)))

theorem grows_concurrent {span : Span} {aggregate : Status} {index : Nat} {forest : List Tree}
    {entered : Course β} (behind : span.start ≤ index) (trees : AllGrow scene (size forest))
    (course : Course β) (grown : Grows span.start entered course) :
    Grows span.start entered (concurrent scene span entered aggregate index forest course).2 := by
  induction forest generalizing index course aggregate with
  | nil =>
    rw [concurrent]
    exact grown
  | cons tree rest ih =>
    rw [concurrent_cons]
    have first := grown.trans ((trees tree (size_le_first tree rest) index course).mono behind)
    generalize tree.interpret scene index course = visited at first
    by_cases fail : visited.1 = .fail
    · rw [if_pos fail]
      exact first.takeBack.trans (.abandon span _)
    · rw [if_neg fail]
      exact ih (by omega) (trees.mono (size_le_rest tree rest)) _ first

end Forest

/-- The interpretation of a tree leaves alone what lies before its root. -/
theorem Tree.grows (scene : Scene β) (tree : Tree) (index : Nat) (course : Course β) :
    Grows index course (tree.interpret scene index course).2 := by
  induction tree using Tree.size_induction generalizing index course with
  | step tree ih =>
    have drained : Grows index course (course.drain scene) := .drain index course
    cases tree with
    | action leaf =>
      rw [interpret]
      exact drained.trans (.visit index leaf _)
    | decider rule children =>
      have entered := drained.trans (.enter index index _)
      have trees : Forest.AllGrow scene (Forest.size children) := by
        intro smaller less place started
        refine ih smaller ?_ place started
        rw [Tree.size]
        omega
      cases rule with
      | sequence =>
        rw [interpret]
        exact entered.trans (Forest.grows_sequence (Nat.le_succ index) trees _)
      | dynamicPriority =>
        rw [interpret]
        exact entered.trans (Forest.grows_dynamicPriority (Nat.le_succ index) trees _)
      | concurrent =>
        rw [interpret]
        have behind : (Span.mk index (index + 1 + Forest.size children)).start ≤ index + 1 :=
          Nat.le_succ index
        exact entered.trans (Forest.grows_concurrent behind trees _ (.refl index _))

end BehaviorTree
