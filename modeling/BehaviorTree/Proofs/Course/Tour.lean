import BehaviorTree.Proofs.Course.Turns

namespace BehaviorTree
open Course
variable {β : Type} {scene : Scene β}

/-- What happens to a node: it is entered, or left with a status. -/
inductive Happening where
  | entered (atom : Nat)
  | left (atom : Nat) (status : Status)
  deriving DecidableEq, Repr

/-- The node that something happens to. -/
def Happening.atom : Happening → Nat
  | entered atom => atom
  | left atom _ => atom

/-- The node that is entered, if that is what happens. -/
def Happening.entry? : Happening → Option Nat
  | entered atom => some atom
  | left _ _ => none

/-- The nodes that are entered. -/
theorem Happening.mem_filterMap_entry? (told : List Happening) (atom : Nat) :
    atom ∈ told.filterMap Happening.entry? ↔ .entered atom ∈ told := by
  rw [List.mem_filterMap]
  constructor
  · rintro ⟨happening, member, entry⟩
    cases happening with
    | entered other =>
      obtain rfl := Option.some.inj entry
      exact member
    | left => cases entry
  · intro member
    exact ⟨_, member, rfl⟩

theorem Forest.size_behind_le (start index : Nat) (forest : List Tree) :
    Forest.size (Forest.behind start index forest) ≤ Forest.size forest := by
  fun_induction Forest.behind start index forest with
  | case1 => exact Nat.le_refl _
  | case2 index leaf rest before ih => exact Nat.le_trans ih (Forest.size_le_rest _ _)
  | case3 => exact Nat.le_refl _
  | case4 index rule children rest skipped ih => exact Nat.le_trans ih (Forest.size_le_rest _ _)
  | case5 index rule children rest _ _ ih =>
    rw [Forest.size_append, Forest.size, Tree.size]
    omega
  | case6 => exact Nat.le_refl _

mutual

/-- What happens to the nodes of a tree that is visited. -/
def Tree.tour (scene : Scene β) (index : Nat) : Tree → Course β → List Happening
  | .action leaf, course =>
      [.entered index, .left index ((Tree.action leaf).interpret scene index course).1]
  | .decider rule children, course =>
      let start := scene.entrance index (index + 1 + Forest.size children) rule
      .entered index :: Forest.tour scene rule.goesOn start
          (Forest.behind start (index + 1) children) ((course.drain scene).enter index) ++
        [.left index ((Tree.decider rule children).interpret scene index course).1]
  termination_by tree => 2 * tree.size
  decreasing_by
    have := Forest.size_behind_le (scene.entrance index (index + 1 + Forest.size children) rule)
      (index + 1) children
    simp only [Tree.size]
    omega

/-- What happens to the nodes of trees that are visited in turn. -/
def Forest.tour (scene : Scene β) (goesOn : Status → Bool) (index : Nat) :
    List Tree → Course β → List Happening
  | [], _ => []
  | tree :: rest, course =>
      tree.tour scene index course ++
        if goesOn (tree.interpret scene index course).1 then
          Forest.tour scene goesOn (index + tree.size) rest (tree.interpret scene index course).2
        else []
  termination_by forest => 2 * Forest.size forest + 1
  decreasing_by
    all_goals
      have := tree.size_pos
      simp only [Forest.size]
      omega

end

/-- What happens to the nodes of a tree at its turn. -/
def Turn.tour (turn : Turn β) (scene : Scene β) : List Happening :=
  turn.tree.tour scene turn.index turn.course

theorem Forest.tour_cons (scene : Scene β) (goesOn : Status → Bool) (index : Nat) (tree : Tree)
    (rest : List Tree) (course : Course β) :
    Forest.tour scene goesOn index (tree :: rest) course =
      tree.tour scene index course ++
        if goesOn (tree.interpret scene index course).1 then
          Forest.tour scene goesOn (index + tree.size) rest (tree.interpret scene index course).2
        else [] := by
  rw [Forest.tour]

/-- The tour of a forest is made of the tours of the trees that have their turn. -/
theorem Turns.tour_eq {goesOn : Status → Bool} {index : Nat} {forest : List Tree}
    {course after : Course β} {passed : List (Turn β)} {last : Option (Turn β)}
    (turns : Turns scene goesOn index forest course passed last after) :
    Forest.tour scene goesOn index forest course =
      (passed ++ last.toList).flatMap fun turn => turn.tour scene := by
  induction turns with
  | empty => rw [Forest.tour]; rfl
  | ends verdict =>
    rw [Forest.tour_cons]
    simp only [Turn.status, Turn.finish] at verdict
    simp [verdict, Turn.tour]
  | next on later ih =>
    rw [Forest.tour_cons]
    simp only [Turn.status, Turn.finish] at on
    simp only [on, if_true, List.cons_append, List.flatMap_cons]
    rw [← ih]
    rfl

namespace Turn

/-- A tour begins where the root is entered. -/
theorem tour_head (turn : Turn β) (scene : Scene β) :
    ∃ rest, turn.tour scene = .entered turn.index :: rest := by
  obtain ⟨tree, index, course⟩ := turn
  cases tree with
  | action leaf => exact ⟨_, by rw [tour, Tree.tour]⟩
  | decider rule children => exact ⟨_, by rw [tour, Tree.tour]; rfl⟩

/-- On its tour the root is left with what it delivers. -/
theorem left_mem_tour (turn : Turn β) (scene : Scene β) :
    .left turn.index (turn.status scene) ∈ turn.tour scene := by
  obtain ⟨tree, index, course⟩ := turn
  cases tree with
  | action leaf => simp [tour, Tree.tour, status, finish]
  | decider rule children => simp [tour, Tree.tour, status, finish]

end Turn

namespace Turn.Valid
variable (ready : scene.Ready)
include ready

/-- A decider is toured between its entry and its exit, in the turns of its children. -/
theorem tours {rule : Rule} {children : List Tree} {index : Nat} {course : Course β}
    (valid : Turn.Valid scene ⟨.decider rule children, index, course⟩) :
    ∃ passed last after,
      Unfolds scene rule ⟨index, index + 1 + Forest.size children⟩
        ((course.drain scene).enter index)
        (Forest.behind (scene.entrance index (index + 1 + Forest.size children) rule) (index + 1)
          children) passed last after ∧
      Turn.finish ⟨.decider rule children, index, course⟩ scene =
        rule.conclude scene ⟨index, index + 1 + Forest.size children⟩
          ((course.drain scene).enter index) passed last after ∧
      Turn.tour ⟨.decider rule children, index, course⟩ scene =
        .entered index :: (passed ++ last.toList).flatMap (fun turn => turn.tour scene) ++
          [.left index (Turn.status ⟨.decider rule children, index, course⟩ scene)] := by
  obtain ⟨passed, last, after, unfolds, finish_eq⟩ := valid.unfolds ready
  refine ⟨passed, last, after, unfolds, finish_eq, ?_⟩
  rw [← unfolds.turns.tour_eq, Turn.tour, Tree.tour]
  rfl

/-- A tour stays within its tree. -/
theorem tour_within {turn : Turn β} (valid : turn.Valid scene) :
    ∀ happening ∈ turn.tour scene, turn.index ≤ happening.atom ∧ happening.atom < turn.stop := by
  refine Turn.Valid.induction
    (motive := fun turn => ∀ happening ∈ turn.tour scene,
      turn.index ≤ happening.atom ∧ happening.atom < turn.stop)
    (fun {leaf index course} valid => ?_) (fun {rule children index course} valid smaller => ?_)
    valid
  · have inside := Turn.index_lt_stop ⟨.action leaf, index, course⟩
    intro happening member
    simp only [Turn.tour, Tree.tour, List.mem_cons, List.not_mem_nil, or_false] at member
    rcases member with rfl | rfl <;> exact ⟨Nat.le_refl _, inside⟩
  · have inside := Turn.index_lt_stop ⟨.decider rule children, index, course⟩
    obtain ⟨passed, last, after, unfolds, -, tour_eq⟩ := valid.tours ready
    rw [tour_eq]
    intro happening member
    rcases List.mem_append.mp member with first | last
    · rcases List.mem_cons.mp first with rfl | child
      · exact ⟨Nat.le_refl _, inside⟩
      · obtain ⟨turn, having, told⟩ := List.mem_flatMap.mp child
        obtain ⟨valid, within⟩ := unfolds.valid_of_mem ready turn having
        obtain ⟨from_, before⟩ := smaller turn valid within happening told
        have stop_eq : (Turn.mk (.decider rule children) index course).stop =
            index + 1 + Forest.size children := by
          rw [Turn.stop, Tree.size, Nat.add_assoc]
        have := within.1
        have := within.2
        simp only at *
        omega
    · obtain rfl := List.mem_singleton.mp last
      exact ⟨Nat.le_refl _, inside⟩

/-- The nodes that are visited in a turn are those that are entered on the tour. -/
theorem visited {turn : Turn β} (valid : turn.Valid scene) :
    (turn.after scene).visited =
      turn.course.visited ++ (turn.tour scene).filterMap Happening.entry? := by
  refine Turn.Valid.induction
    (motive := fun turn => (turn.after scene).visited =
      turn.course.visited ++ (turn.tour scene).filterMap Happening.entry?)
    (fun {leaf index course} valid => ?_) (fun {rule children index course} valid smaller => ?_)
    valid
  · obtain ⟨status, added, entry, request, board, seed, -, visits⟩ :=
      (course.drain scene).visit_eq scene index leaf
    simp [Turn.after, Turn.finish, Turn.tour, Tree.tour, Tree.interpret, visits,
      Happening.entry?]
  · obtain ⟨passed, last, after, unfolds, finish_eq, tour_eq⟩ := valid.tours ready
    obtain ⟨-, -, visited⟩ := unfolds.afterTurns ready
      (motive := fun _ other done => other.visited = course.visited ++ [index] ++
        (done.flatMap fun turn => turn.tour scene).filterMap Happening.entry?)
      (fun turn done valid within before => by
        rw [smaller turn valid within, before]
        simp)
      (by simp [Course.enter])
    rw [tour_eq, Turn.after, finish_eq, Rule.visited_conclude, visited]
    simp [Happening.entry?]

end Turn.Valid

/-- The nodes that an update visits are those that are entered on the tour of the whole tree. -/
theorem Scene.visited_update (ready : scene.Ready) (board : β) :
    (scene.update board).2.visited =
      ((scene.whole board).tour scene).filterMap Happening.entry? := by
  rw [update_eq, visited_drain, (scene.whole_valid board).visited ready]
  rfl

end BehaviorTree
