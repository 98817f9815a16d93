import BehaviorTree.Proofs.Course.Reach

namespace BehaviorTree
variable {β : Type}

namespace Shape
variable {shape : Shape β} {parent stop : Nat}

/-- The node at an index is a child of the decider at another index. -/
inductive IsChild (shape : Shape β) (parent stop : Nat) : Nat → Prop
  | first (inside : parent + 1 < stop) : IsChild shape parent stop (parent + 1)
  | next {child : Nat} (earlier : IsChild shape parent stop child)
      (inside : shape.stopAt child < stop) : IsChild shape parent stop (shape.stopAt child)

/-- Behind each tree of a forest stands the next one, or the forest ends. -/
theorem stopAt_root {index root : Nat} {forest : List Tree}
    (holds : shape.Holds index (Forest.listing index forest))
    (member : root ∈ Forest.roots index forest) :
    shape.stopAt root ∈ Forest.roots index forest ∨
      shape.stopAt root = index + Forest.size forest := by
  induction forest generalizing index with
  | nil => cases member
  | cons tree rest ih =>
    obtain ⟨here, behind⟩ := holds_forest_cons.mp holds
    rw [Forest.roots, Forest.size, ← Nat.add_assoc]
    rcases List.mem_cons.mp member with rfl | later
    · rw [stopAt_tree here]
      cases rest with
      | nil => exact Or.inr rfl
      | cons next others => exact Or.inl (List.mem_cons_of_mem _ List.mem_cons_self)
    · rcases ih behind later with found | last
      · exact Or.inl (List.mem_cons_of_mem _ found)
      · exact Or.inr last

/-- The children of a decider are the roots of its forest. -/
theorem IsChild.mem_roots {child : Nat} {forest : List Tree}
    (holds : shape.Holds (parent + 1) (Forest.listing (parent + 1) forest))
    (isChild : shape.IsChild parent (parent + 1 + Forest.size forest) child) :
    child ∈ Forest.roots (parent + 1) forest := by
  induction isChild with
  | first inside =>
    cases forest with
    | nil =>
      rw [Forest.size] at inside
      omega
    | cons tree rest => exact List.mem_cons_self
  | next _ inside ih =>
    rcases stopAt_root holds ih with found | last
    · exact found
    · omega

/-- Behind a child that ends before its parent stands the next one. -/
theorem IsChild.behind {index : Nat} {tree : Tree} {rest : List Tree}
    (isChild : shape.IsChild parent stop index) (holds : shape.Holds index (tree.listing index))
    (end_eq : index + Forest.size (tree :: rest) = stop) (more : rest ≠ []) :
    shape.IsChild parent stop (index + tree.size) := by
  have used := Forest.size_pos more
  rw [Forest.size] at end_eq
  rw [← stopAt_tree holds]
  apply isChild.next
  rw [stopAt_tree holds]
  omega

end Shape

namespace Scene
variable {scene : Scene β}

/-- What the actor remembers of a sequence is, if it lies in the span, a child of the sequence. -/
def Direct (scene : Scene β) : Prop :=
  ∀ sequence stop, scene.shape.atom? sequence = some (.decider .sequence stop) →
    ∀ child, scene.actor.continuations.find? sequence = some child →
      sequence + 1 ≤ child → child < stop → scene.shape.IsChild sequence stop child

/-- A sequence starts at a child, if it has one. -/
theorem Direct.start_isChild (direct : scene.Direct) {sequence stop : Nat}
    (stands : scene.shape.atom? sequence = some (.decider .sequence stop))
    (used : sequence + 1 < stop) :
    scene.shape.IsChild sequence stop (scene.start sequence stop) := by
  unfold start
  split
  · next child found =>
    split
    · next inside => exact direct sequence stop stands child found inside.1 inside.2
    · exact .first used
  · exact .first used

/-- A sequence passes the children before the one that the actor remembers, or none, and visits the
others in turn. -/
theorem Direct.sequence_eq (direct : scene.Direct) {index : Nat} {children : List Tree}
    (holds : scene.shape.Holds index ((Tree.decider .sequence children).listing index))
    (used : children ≠ []) :
    ∃ passed rest, children = passed ++ rest ∧ rest ≠ [] ∧
      scene.start index (index + 1 + Forest.size children) = index + 1 + Forest.size passed ∧
      ∀ course, (Tree.decider .sequence children).interpret scene index course =
        Forest.inTurn scene index (index + 1 + Forest.size passed) rest
          ((course.drain scene).enter index) := by
  obtain ⟨stands, below⟩ := Shape.holds_cons.mp holds
  have size_pos := Forest.size_pos used
  have isChild := direct.start_isChild stands (by omega)
  obtain ⟨passed, rest, split, begins, visits⟩ :=
    Forest.sequence_direct scene (isChild.mem_roots below)
  have start_lt := scene.start_lt (show index + 1 < index + 1 + Forest.size children by omega)
  refine ⟨passed, rest, split, ?_, begins, fun course => ?_⟩
  · rintro rfl
    rw [split, List.append_nil] at begins start_lt
    omega
  · rw [Tree.interpret, visits, begins]

end Scene

end BehaviorTree
