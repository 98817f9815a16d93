import BehaviorTree.Shape

namespace BehaviorTree

/-- A node without children. -/
inductive Leaf where
  | immediate (function : Nat)
  | deferred (action resource : Nat)
  | persistent (slot : Nat)
  deriving DecidableEq, Repr

/-- The atom of an action in the stream. -/
def Leaf.atom : Leaf → Atom
  | immediate function => .immediate function
  | deferred action resource => .deferred action resource
  | persistent slot => .persistent slot

/-- A behavior tree. -/
inductive Tree where
  | action (leaf : Leaf)
  | decider (rule : Rule) (children : List Tree)

mutual

/-- The number of nodes of a tree. -/
def Tree.size : Tree → Nat
  | .action _ => 1
  | .decider _ children => 1 + Forest.size children

/-- The number of nodes of all trees of a forest. -/
def Forest.size : List Tree → Nat
  | [] => 0
  | tree :: rest => tree.size + Forest.size rest

end

mutual

/-- The nodes of a tree in pre-order, the first of them at an index. -/
def Tree.listing (index : Nat) : Tree → List Atom
  | .action leaf => [leaf.atom]
  | .decider rule children =>
      .decider rule (index + 1 + Forest.size children) :: Forest.listing (index + 1) children

/-- The nodes of a forest, one tree after the other. -/
def Forest.listing (index : Nat) : List Tree → List Atom
  | [] => []
  | tree :: rest => tree.listing index ++ Forest.listing (index + tree.size) rest

end

mutual

/-- No decider is without children. -/
def Tree.Proper : Tree → Prop
  | .action _ => True
  | .decider _ children => children ≠ [] ∧ Forest.Proper children

/-- No decider of the forest is without children. -/
def Forest.Proper : List Tree → Prop
  | [] => True
  | tree :: rest => tree.Proper ∧ Forest.Proper rest

end

mutual

/-- The largest number of deciders on a path from the root. -/
def Tree.depth : Tree → Nat
  | .action _ => 0
  | .decider _ children => Forest.depth children + 1

/-- The largest depth of a tree of the forest. -/
def Forest.depth : List Tree → Nat
  | [] => 0
  | tree :: rest => max tree.depth (Forest.depth rest)

end

theorem Tree.size_pos (tree : Tree) : 0 < tree.size := by
  cases tree with
  | action => exact Nat.one_pos
  | decider rule children =>
    rw [Tree.size]
    omega

mutual

@[simp] theorem Tree.length_listing (index : Nat) :
    ∀ tree : Tree, (tree.listing index).length = tree.size
  | .action _ => rfl
  | .decider _ children => by
      rw [Tree.listing, List.length_cons, Forest.length_listing (index + 1) children, Tree.size,
        Nat.add_comm]

@[simp] theorem Forest.length_listing (index : Nat) :
    ∀ forest : List Tree, (Forest.listing index forest).length = Forest.size forest
  | [] => rfl
  | tree :: rest => by
      rw [Forest.listing, List.length_append, Tree.length_listing index tree,
        Forest.length_listing (index + tree.size) rest, Forest.size]

end

namespace Forest

theorem size_append (first second : List Tree) :
    size (first ++ second) = size first + size second := by
  induction first with
  | nil => rw [List.nil_append, size, Nat.zero_add]
  | cons tree rest ih => rw [List.cons_append, size, ih, size, Nat.add_assoc]

theorem depth_append (first second : List Tree) :
    depth (first ++ second) = max (depth first) (depth second) := by
  induction first with
  | nil => rw [List.nil_append, depth, Nat.zero_max]
  | cons tree rest ih => rw [List.cons_append, depth, ih, depth, Nat.max_assoc]

theorem listing_append (index : Nat) (first second : List Tree) :
    listing index (first ++ second) =
      listing index first ++ listing (index + size first) second := by
  induction first generalizing index with
  | nil => rw [List.nil_append, listing, List.nil_append, size, Nat.add_zero]
  | cons tree rest ih =>
    rw [List.cons_append, listing, ih, listing, List.append_assoc, size, Nat.add_assoc]

theorem proper_append (first second : List Tree) :
    Proper (first ++ second) ↔ Proper first ∧ Proper second := by
  induction first with
  | nil => simp [Proper]
  | cons tree rest ih => rw [List.cons_append, Proper, ih, Proper, and_assoc]

theorem size_pos {forest : List Tree} (nonempty : forest ≠ []) : 0 < size forest := by
  cases forest with
  | nil => exact absurd rfl nonempty
  | cons tree rest =>
    have := tree.size_pos
    rw [size]
    omega

/-- The trees up to a number of nodes, and the others. -/
def split : Nat → List Tree → List Tree × List Tree
  | 0, forest => ([], forest)
  | _ + 1, [] => ([], [])
  | count + 1, tree :: rest =>
      let (first, second) := split (count + 1 - tree.size) rest
      (tree :: first, second)

/-- The forest of a stream whose first atom stands at an index. -/
def ofAtoms (index : Nat) : List Atom → List Tree
  | [] => []
  | .immediate function :: atoms => .action (.immediate function) :: ofAtoms (index + 1) atoms
  | .deferred action resource :: atoms =>
      .action (.deferred action resource) :: ofAtoms (index + 1) atoms
  | .persistent slot :: atoms => .action (.persistent slot) :: ofAtoms (index + 1) atoms
  | .decider rule stop :: atoms =>
      let (children, rest) := split (stop - (index + 1)) (ofAtoms (index + 1) atoms)
      .decider rule children :: rest

end Forest

/-- The tree of a shape. -/
def Shape.tree {β : Type} (shape : Shape β) : Tree :=
  (Forest.ofAtoms 0 shape.atoms.toList).headD (.action (.persistent 0))

/-- The shape holds the atoms from the index on. -/
def Shape.Holds {β : Type} (shape : Shape β) (index : Nat) (atoms : List Atom) : Prop :=
  ∀ offset (inside : offset < atoms.length), shape.atom? (index + offset) = some atoms[offset]

namespace Shape
variable {β : Type} {shape : Shape β}

theorem holds_cons {index : Nat} {atom : Atom} {atoms : List Atom} :
    shape.Holds index (atom :: atoms) ↔
      shape.atom? index = some atom ∧ shape.Holds (index + 1) atoms := by
  constructor
  · intro holds
    refine ⟨holds 0 (Nat.succ_pos _), fun offset inside => ?_⟩
    have later := holds (offset + 1) (Nat.succ_lt_succ inside)
    rwa [← Nat.add_assoc, Nat.add_right_comm] at later
  · rintro ⟨first, rest⟩ (_ | offset) inside
    · exact first
    · have later := rest offset (Nat.lt_of_succ_lt_succ inside)
      rwa [Nat.add_right_comm, Nat.add_assoc] at later

theorem holds_append {index : Nat} {first second : List Atom} :
    shape.Holds index (first ++ second) ↔
      shape.Holds index first ∧ shape.Holds (index + first.length) second := by
  induction first generalizing index with
  | nil => simp [Holds]
  | cons atom atoms ih =>
    rw [List.cons_append, holds_cons, holds_cons, ih, and_assoc, List.length_cons, Nat.add_assoc,
      Nat.add_comm 1]

end Shape

end BehaviorTree
