import BehaviorTree.Proofs.Course.Move

namespace BehaviorTree
open Course
variable {β : Type}

namespace Shape
variable {shape : Shape β} {index : Nat}

/-- The index just past the subtree at an index. -/
def stopAt (shape : Shape β) (index : Nat) : Nat :=
  match shape.atom? index with
  | some (.decider _ stop) => stop
  | some (.immediate _) | some (.deferred _ _) | some (.persistent _) | none => index + 1

theorem stopAt_tree {tree : Tree} (holds : shape.Holds index (tree.listing index)) :
    shape.stopAt index = index + tree.size := by
  cases tree with
  | action leaf =>
    have stands := (holds_cons.mp holds).1
    rw [stopAt, stands, Tree.size]
    cases leaf <;> rfl
  | decider rule children =>
    have stands := (holds_cons.mp holds).1
    rw [stopAt, stands, Tree.size, Nat.add_assoc]

theorem Holds.le_size {tree : Tree} (holds : shape.Holds index (tree.listing index)) :
    index + tree.size ≤ shape.size := by
  have used := tree.size_pos
  have last := holds (tree.size - 1) (by rw [Tree.length_listing]; omega)
  have inside := (shape.atom?_isSome_iff (index + (tree.size - 1))).mp (by rw [last]; rfl)
  omega

theorem holds_forest_cons {tree : Tree} {rest : List Tree} :
    shape.Holds index (Forest.listing index (tree :: rest)) ↔
      shape.Holds index (tree.listing index) ∧
        shape.Holds (index + tree.size) (Forest.listing (index + tree.size) rest) := by
  rw [Forest.listing, holds_append, Tree.length_listing]

/-- Where a decider is followed by other trees, its children are followed by them. -/
theorem holds_forest_open {rule : Rule} {children rest : List Tree}
    (holds : shape.Holds index (Forest.listing index (.decider rule children :: rest))) :
    shape.Holds (index + 1) (Forest.listing (index + 1) (children ++ rest)) := by
  obtain ⟨first, second⟩ := holds_forest_cons.mp holds
  rw [Forest.listing_append, holds_append, Forest.length_listing]
  refine ⟨(holds_cons.mp first).2, ?_⟩
  rwa [Tree.size, ← Nat.add_assoc] at second

end Shape

namespace Scene
variable {scene : Scene β}

theorem lt_start (scene : Scene β) (sequence stop : Nat) :
    sequence < scene.start sequence stop := by
  unfold start
  split
  · split <;> omega
  · exact Nat.lt_succ_self sequence

theorem start_lt (scene : Scene β) {sequence stop : Nat} (child : sequence + 1 < stop) :
    scene.start sequence stop < stop := by
  unfold start
  split
  · split <;> omega
  · exact child

/-- Within the span of a sequence, all nodes are quiet but those of the child at which it starts. -/
def Coherent (scene : Scene β) (quiet : Nat → Prop) : Prop :=
  ∀ sequence stop, scene.shape.atom? sequence = some (.decider .sequence stop) →
    ∀ index, sequence < index → index < stop → quiet index ∨
      (scene.start sequence stop ≤ index ∧
        index < scene.shape.stopAt (scene.start sequence stop))

/-- Where everything is quiet, what the actor remembers is coherent. -/
theorem coherent_trivial (scene : Scene β) : scene.Coherent fun _ => True :=
  fun _ _ _ _ _ _ => Or.inl trivial

end Scene

variable {scene : Scene β} {quiet : Nat → Prop}

namespace Forest

/-- Each smaller tree is gone through by moves. -/
def AllReach (scene : Scene β) (quiet : Nat → Prop) (size : Nat) : Prop :=
  ∀ tree : Tree, tree.size ≤ size → ∀ index course,
    scene.shape.Holds index (tree.listing index) → Sound scene index course →
      Reaches scene quiet index course (index + tree.size) (tree.interpret scene index course).2

theorem AllReach.mono {smaller larger : Nat} (trees : AllReach scene quiet larger)
    (less : smaller ≤ larger) : AllReach scene quiet smaller :=
  fun tree bounded => trees tree (Nat.le_trans bounded less)

theorem reaches_sequence (ready : scene.Ready) (coherent : scene.Coherent quiet)
    {decider stop index : Nat} {forest : List Tree}
    (stands : scene.shape.atom? decider = some (.decider .sequence stop))
    (behind : decider < index) (end_eq : index + size forest = stop)
    (inside : stop ≤ scene.shape.size)
    (closed : scene.start decider stop < index →
      scene.shape.stopAt (scene.start decider stop) ≤ index)
    (holds : scene.shape.Holds index (listing index forest))
    (trees : AllReach scene quiet (size forest)) {course : Course β}
    (sound : Sound scene index course)
    (unrecorded : ∀ entry ∈ course.continuations, entry.atom ≠ decider) :
    Reaches scene quiet index course (index + size forest)
      (sequence scene decider (scene.start decider stop) index forest course).2 := by
  generalize starts : scene.start decider stop = start at closed
  induction index, forest using sequence_induction start generalizing course with
  | nil index =>
    rw [sequence_nil]
    exact .refl
  | skip index tree rest skipped ih =>
    rw [size, ← Nat.add_assoc] at end_eq
    obtain ⟨first, second⟩ := Shape.holds_forest_cons.mp holds
    have quiet_tree : ∀ place, index ≤ place → place < index + tree.size → quiet place := by
      intro place from_ before
      rcases coherent decider stop stands place (by omega) (by omega) with quiet | ⟨reached, -⟩
      · exact quiet
      · omega
    have passed : Reaches scene quiet index course (index + tree.size) course :=
      .single (.pass (Nat.le_add_right index tree.size) first.le_size quiet_tree)
    rw [sequence_skip scene skipped, size, ← Nat.add_assoc]
    exact passed.trans (ih (by omega) end_eq second (trees.mono (size_le_rest tree rest))
      (sound.pass (Nat.le_add_right _ _) first.le_size) unrecorded (by omega))
  | opened index rule children rest before within ih =>
    have total : index + 1 + size (children ++ rest) =
        index + size (.decider rule children :: rest) := by
      rw [size_append, size, Tree.size]
      omega
    have next_le : index + 1 ≤ scene.shape.size := by
      have := (Shape.holds_forest_cons.mp holds).1.le_size
      rw [Tree.size] at this
      omega
    have quiet_here : ∀ place, index ≤ place → place < index + 1 → quiet place := by
      intro place from_ until_
      have before_stop : place < stop := by
        rw [size] at end_eq
        omega
      rcases coherent decider stop stands place (by omega) before_stop with quiet | ⟨reached, -⟩
      · exact quiet
      · omega
    have passed : Reaches scene quiet index course (index + 1) course :=
      .single (.pass (Nat.le_succ index) next_le quiet_here)
    rw [sequence_open scene before within, ← total]
    exact passed.trans (ih (by omega) (by omega) (Shape.holds_forest_open holds)
      (trees.mono (size_le_opened rule children rest)) (sound.pass (Nat.le_succ _) next_le)
      unrecorded (by omega))
  | visit index tree rest reached ih =>
    rw [size, ← Nat.add_assoc] at end_eq
    obtain ⟨first, second⟩ := Shape.holds_forest_cons.mp holds
    have visited := trees tree (size_le_first tree rest) index course first sound
    have sound_after := sound.reaches ready visited
    have unrecorded_after := (tree.grows scene index course).unrecorded behind unrecorded
    have closed_after : scene.shape.stopAt start ≤ index + tree.size := by
      rcases Nat.lt_or_eq_of_le reached with before | rfl
      · exact Nat.le_trans (closed before) (Nat.le_add_right _ _)
      · exact Nat.le_of_eq (Shape.stopAt_tree first)
    rw [sequence_visit scene reached, size, ← Nat.add_assoc]
    generalize tree.interpret scene index course = left at *
    by_cases success : left.1 = .success
    · rw [if_pos success]
      exact visited.trans (ih (by omega) end_eq second (trees.mono (size_le_rest tree rest))
        sound_after unrecorded_after fun _ => closed_after)
    · -- The sequence ends here, and the children behind this one are passed.
      have quiet_rest : ∀ place, index + tree.size ≤ place →
          place < index + tree.size + size rest → quiet place := by
        intro place from_ before
        rcases coherent decider stop stands place (by omega) (by omega) with quiet | ⟨-, inside⟩
        · exact quiet
        · rw [starts] at inside
          omega
      have end_le : index + tree.size + size rest ≤ scene.shape.size := end_eq ▸ inside
      rw [if_neg success]
      by_cases active : left.1.isActive = true
      · rw [if_pos active]
        exact (visited.tail (.record stands (by omega) unrecorded_after)).tail
          (.pass (Nat.le_add_right _ _) end_le quiet_rest)
      · rw [if_neg active]
        exact visited.tail (.pass (Nat.le_add_right _ _) end_le quiet_rest)

theorem reaches_dynamicPriority (ready : scene.Ready) {stop index : Nat} {forest : List Tree}
    (end_eq : index + size forest = stop) (inside : stop ≤ scene.shape.size)
    (holds : scene.shape.Holds index (listing index forest))
    (trees : AllReach scene quiet (size forest)) {course : Course β}
    (sound : Sound scene index course) :
    Reaches scene quiet index course stop (dynamicPriority scene stop index forest course).2 := by
  induction forest generalizing index course with
  | nil =>
    rw [dynamicPriority]
    obtain rfl : index = stop := end_eq
    exact .refl
  | cons tree rest ih =>
    rw [size, ← Nat.add_assoc] at end_eq
    obtain ⟨first, second⟩ := Shape.holds_forest_cons.mp holds
    have visited := trees tree (size_le_first tree rest) index course first sound
    rw [dynamicPriority_cons]
    by_cases fail : (tree.interpret scene index course).1 = .fail
    · rw [if_pos fail]
      exact visited.trans (ih end_eq second (trees.mono (size_le_rest tree rest))
        (sound.reaches ready visited))
    · rw [if_neg fail]
      exact visited.tail (.abandon (by omega) inside)

theorem reaches_concurrent (ready : scene.Ready) {span : Span} {aggregate : Status} {index : Nat}
    {forest : List Tree} (behind : span.start < index) (end_eq : index + size forest = span.stop)
    (inside : span.stop ≤ scene.shape.size)
    (holds : scene.shape.Holds index (listing index forest))
    (trees : AllReach scene quiet (size forest)) {entered course : Course β}
    (grown : Grows (span.start + 1) entered course)
    (before : ∀ request ∈ entered.launches, request.atom < span.start)
    (sound : Sound scene index course) :
    Reaches scene quiet index course span.stop
      (concurrent scene span entered aggregate index forest course).2 := by
  induction forest generalizing index course aggregate with
  | nil =>
    rw [concurrent]
    obtain rfl : index = span.stop := end_eq
    exact .refl
  | cons tree rest ih =>
    rw [size, ← Nat.add_assoc] at end_eq
    obtain ⟨first, second⟩ := Shape.holds_forest_cons.mp holds
    have visited := trees tree (size_le_first tree rest) index course first sound
    have grown_after := grown.trans ((tree.grows scene index course).mono behind)
    rw [concurrent_cons]
    by_cases fail : (tree.interpret scene index course).1 = .fail
    · rw [if_pos fail]
      have used := tree.size_pos
      exact visited.tail (.fail (by omega) (by omega) inside grown_after before)
    · rw [if_neg fail]
      exact visited.trans (ih (by omega) end_eq second (trees.mono (size_le_rest tree rest))
        grown_after (sound.reaches ready visited))

end Forest

/-- The interpretation of a tree goes through the tree by moves. -/
theorem Tree.reaches (ready : scene.Ready) (coherent : scene.Coherent quiet) (tree : Tree)
    (index : Nat) (course : Course β) (holds : scene.shape.Holds index (tree.listing index))
    (sound : Sound scene index course) :
    Reaches scene quiet index course (index + tree.size)
      (tree.interpret scene index course).2 := by
  induction tree using Tree.size_induction generalizing index course with
  | step tree ih =>
    have drained : Reaches scene quiet index course index (course.drain scene) :=
      .single (.drain index course)
    cases tree with
    | action leaf =>
      rw [interpret]
      exact drained.tail (.visit (Shape.holds_cons.mp holds).1 (by simp))
    | decider rule children =>
      have inside := holds.le_size
      obtain ⟨stands, below⟩ := Shape.holds_cons.mp holds
      have entered := drained.tail (.enter stands)
      have sound_entered := sound.reaches ready entered
      have trees : Forest.AllReach scene quiet (Forest.size children) := by
        intro smaller less
        apply ih smaller
        rw [Tree.size]
        omega
      rw [Tree.size, ← Nat.add_assoc] at inside ⊢
      cases rule with
      | sequence =>
        rw [interpret]
        refine entered.trans (Forest.reaches_sequence ready coherent stands (Nat.lt_succ_self _) rfl
          inside ?_ below trees sound_entered ?_)
        · have := scene.lt_start index (index + 1 + Forest.size children)
          omega
        · have unrecorded := sound.unrecorded (Nat.le_refl index)
          simpa [Course.enter] using unrecorded
      | dynamicPriority =>
        rw [interpret]
        exact entered.trans
          (Forest.reaches_dynamicPriority ready rfl inside below trees sound_entered)
      | concurrent =>
        rw [interpret]
        have behind : (Span.mk index (index + 1 + Forest.size children)).start < index + 1 :=
          Nat.lt_succ_self index
        refine entered.trans (Forest.reaches_concurrent ready behind rfl inside below trees
          (.refl _ _) (fun request member => ?_) sound_entered)
        apply sound.launch_lt
        simpa [Course.enter] using member

/-- The interpretation of a tree leaves a sound course sound. -/
theorem Tree.sound_interpret (ready : scene.Ready) (tree : Tree) {index : Nat} {course : Course β}
    (holds : scene.shape.Holds index (tree.listing index)) (sound : Sound scene index course) :
    Sound scene (index + tree.size) (tree.interpret scene index course).2 :=
  sound.reaches ready (tree.reaches ready scene.coherent_trivial index course holds sound)

namespace Scene

/-- The traversal of the whole shape goes by moves. -/
theorem traversal_reaches (ready : scene.Ready) (coherent : scene.Coherent quiet) (board : β) :
    Reaches scene quiet 0 (scene.opening board) scene.shape.size
      (scene.shape.tree.interpret scene 0 (scene.opening board)).2 := by
  have traversed := scene.shape.tree.reaches ready coherent 0 (scene.opening board)
    scene.shape.holds_tree (.opening scene board)
  rwa [Shape.size_tree, Nat.zero_add] at traversed

/-- An update goes through the whole shape by moves. -/
theorem update_reaches (ready : scene.Ready) (coherent : scene.Coherent quiet) (board : β) :
    Reaches scene quiet 0 (scene.opening board) scene.shape.size (scene.update board).2 :=
  (traversal_reaches ready coherent board).tail (.drain _ _)

/-- A cancellation abandons the whole shape. -/
theorem cancel_reaches (scene : Scene β) (quiet : Nat → Prop) (board : β) :
    Reaches scene quiet 0 (scene.opening board) scene.shape.size (scene.cancel board) :=
  (Reaches.single (.abandon (Nat.zero_le _) (Nat.le_refl _))).tail (.drain _ _)

end Scene

end BehaviorTree
