import BehaviorTree.Proofs.Course.Lemmas

namespace BehaviorTree

/-- What holds of a tree if it holds of all smaller trees holds of all trees. -/
theorem Tree.size_induction {motive : Tree → Prop}
    (step : ∀ tree : Tree, (∀ smaller : Tree, smaller.size < tree.size → motive smaller) →
      motive tree) (tree : Tree) : motive tree := by
  induction size : tree.size using Nat.strongRecOn generalizing tree with
  | _ count ih =>
    apply step tree
    intro smaller less
    rw [size] at less
    exact ih smaller.size less smaller rfl

namespace Forest
variable {β : Type} (scene : Scene β)

theorem size_le_first (tree : Tree) (rest : List Tree) : tree.size ≤ size (tree :: rest) := by
  rw [size]
  exact Nat.le_add_right _ _

theorem size_le_rest (tree : Tree) (rest : List Tree) : size rest ≤ size (tree :: rest) := by
  rw [size]
  exact Nat.le_add_left _ _

/-- A decider counts as a node besides its children. -/
theorem size_le_opened (rule : Rule) (children rest : List Tree) :
    size (children ++ rest) ≤ size (.decider rule children :: rest) := by
  rw [size_append, size, Tree.size]
  omega

theorem sequence_nil (decider start index : Nat) (course : Course β) :
    sequence scene decider start index [] course = (.success, course) := by
  rw [sequence]

/-- What becomes of the child at hand of a sequence. -/
def child (decider start index : Nat) (tree : Tree) (course : Course β) : Status × Course β :=
  match tree, decide (index < start) with
  | .decider _ children, true => sequence scene decider start (index + 1) children course
  | tree, _ =>
      let (status, course) := tree.interpret scene index course
      (status, if status.isActive then course.record decider index else course)

theorem sequence_cons (decider start index : Nat) (tree : Tree) (rest : List Tree)
    (course : Course β) :
    sequence scene decider start index (tree :: rest) course =
      if index + tree.size ≤ start then
        sequence scene decider start (index + tree.size) rest course
      else if (child scene decider start index tree course).1 = .success then
        sequence scene decider start (index + tree.size) rest
          (child scene decider start index tree course).2
      else child scene decider start index tree course := by
  rw [sequence.eq_def]
  rfl

theorem child_reached {decider start index : Nat} (tree : Tree) (course : Course β)
    (reached : start ≤ index) :
    child scene decider start index tree course =
      ((tree.interpret scene index course).1,
        if (tree.interpret scene index course).1.isActive then
          (tree.interpret scene index course).2.record decider index
        else (tree.interpret scene index course).2) := by
  have notBefore : decide (index < start) = false := by simpa using reached
  cases tree <;> simp [child, notBefore]

/-- A child that ends at or before the start is passed. -/
theorem sequence_skip {decider start index : Nat} {tree : Tree} {rest : List Tree}
    {course : Course β} (skipped : index + tree.size ≤ start) :
    sequence scene decider start index (tree :: rest) course =
      sequence scene decider start (index + tree.size) rest course := by
  rw [sequence_cons, if_pos skipped]

/-- From the start on, children are visited until one does not succeed. -/
theorem sequence_visit {decider start index : Nat} {tree : Tree} {rest : List Tree}
    {course : Course β} (reached : start ≤ index) :
    sequence scene decider start index (tree :: rest) course =
      if (tree.interpret scene index course).1 = .success then
        sequence scene decider start (index + tree.size) rest
          (tree.interpret scene index course).2
      else ((tree.interpret scene index course).1,
        if (tree.interpret scene index course).1.isActive then
          (tree.interpret scene index course).2.record decider index
        else (tree.interpret scene index course).2) := by
  have used := tree.size_pos
  have notSkipped : ¬index + tree.size ≤ start := by omega
  rw [sequence_cons, if_neg notSkipped, child_reached scene tree course reached]
  by_cases success : (tree.interpret scene index course).1 = .success
  · simp [success, Status.isActive]
  · simp [success]

/-- A sequence goes through one forest after another. -/
theorem sequence_append (decider start : Nat) (first second : List Tree) (index : Nat)
    (course : Course β) :
    sequence scene decider start index (first ++ second) course =
      if (sequence scene decider start index first course).1 = .success then
        sequence scene decider start (index + size first) second
          (sequence scene decider start index first course).2
      else sequence scene decider start index first course := by
  induction first generalizing index course with
  | nil => rw [List.nil_append, sequence_nil, if_pos rfl, size, Nat.add_zero]
  | cons tree rest ih =>
    rw [List.cons_append, sequence_cons, sequence_cons]
    by_cases skipped : index + tree.size ≤ start
    · rw [if_pos skipped, if_pos skipped, ih, size, Nat.add_assoc]
    · rw [if_neg skipped, if_neg skipped]
      generalize child scene decider start index tree course = left
      by_cases success : left.1 = .success
      · rw [if_pos success, if_pos success, ih, size, Nat.add_assoc]
      · rw [if_neg success, if_neg success, if_neg success]

/-- A start within a child opens that child. -/
theorem sequence_open {decider start index : Nat} {rule : Rule} {children rest : List Tree}
    {course : Course β} (before : index < start)
    (within : start < index + (Tree.decider rule children).size) :
    sequence scene decider start index (.decider rule children :: rest) course =
      sequence scene decider start (index + 1) (children ++ rest) course := by
  have notSkipped : ¬index + (Tree.decider rule children).size ≤ start := by omega
  have inside : decide (index < start) = true := by simpa using before
  rw [sequence_cons, if_neg notSkipped, sequence_append]
  simp only [child, inside]
  rw [Tree.size, Nat.add_assoc]

/-- The indices of the roots of a forest. -/
def roots (index : Nat) : List Tree → List Nat
  | [] => []
  | tree :: rest => index :: roots (index + tree.size) rest

/-- Trees are visited one after the other until one does not succeed; if that one is active, it is
recorded as the child of the sequence to go on with. -/
def inTurn (decider index : Nat) : List Tree → Course β → Status × Course β
  | [], course => (.success, course)
  | tree :: rest, course =>
      let (status, course) := tree.interpret scene index course
      if status = .success then inTurn decider (index + tree.size) rest course
      else (status, if status.isActive then course.record decider index else course)

theorem le_of_mem_roots {index root : Nat} {forest : List Tree}
    (member : root ∈ roots index forest) :
    index ≤ root := by
  induction forest generalizing index with
  | nil => cases member
  | cons tree rest ih =>
    rcases List.mem_cons.mp member with rfl | later
    · exact Nat.le_refl _
    · exact Nat.le_trans (Nat.le_add_right _ _) (ih later)

/-- Behind its start, a sequence visits its children in turn. -/
theorem sequence_inTurn {decider start index : Nat} {forest : List Tree} (reached : start ≤ index)
    (course : Course β) :
    sequence scene decider start index forest course =
      inTurn scene decider index forest course := by
  induction forest generalizing index course with
  | nil => rw [sequence_nil, inTurn]
  | cons tree rest ih =>
    rw [sequence_visit scene reached, inTurn, ih (Nat.le_trans reached (Nat.le_add_right _ _))]

/-- A sequence that starts at one of its children passes the children before it and visits the
others in turn. -/
theorem sequence_direct {decider start index : Nat} {forest : List Tree}
    (direct : start ∈ roots index forest) :
    ∃ passed rest, forest = passed ++ rest ∧ start = index + size passed ∧ ∀ course,
      sequence scene decider start index forest course =
        inTurn scene decider start rest course := by
  induction forest generalizing index with
  | nil => cases direct
  | cons tree rest ih =>
    rcases List.mem_cons.mp direct with rfl | later
    · exact ⟨[], tree :: rest, rfl, rfl, sequence_inTurn scene (Nat.le_refl _)⟩
    · obtain ⟨passed, others, rfl, start_eq, visited⟩ := ih later
      refine ⟨tree :: passed, others, rfl, ?_, fun course => ?_⟩
      · rw [start_eq, size, Nat.add_assoc]
      · rw [sequence_skip scene (le_of_mem_roots later), visited]

theorem dynamicPriority_cons (stop index : Nat) (tree : Tree) (rest : List Tree)
    (course : Course β) :
    dynamicPriority scene stop index (tree :: rest) course =
      if (tree.interpret scene index course).1 = .fail then
        dynamicPriority scene stop (index + tree.size) rest (tree.interpret scene index course).2
      else ((tree.interpret scene index course).1,
        (tree.interpret scene index course).2.abandon ⟨index + tree.size, stop⟩) := by
  rw [dynamicPriority]

theorem concurrent_cons (span : Span) (entered : Course β) (aggregate : Status) (index : Nat)
    (tree : Tree) (rest : List Tree) (course : Course β) :
    concurrent scene span entered aggregate index (tree :: rest) course =
      if (tree.interpret scene index course).1 = .fail then
        (.fail, ((tree.interpret scene index course).2.takeBack entered).abandon span)
      else
        concurrent scene span entered
          (if (tree.interpret scene index course).1.isActive then .running else aggregate)
          (index + tree.size) rest (tree.interpret scene index course).2 := by
  rw [concurrent]

/-- An induction that follows a sequence through its children. -/
theorem sequence_induction {motive : Nat → List Tree → Prop} (start : Nat)
    (nil : ∀ index, motive index [])
    (skip : ∀ index tree rest, index + Tree.size tree ≤ start →
      motive (index + tree.size) rest → motive index (tree :: rest))
    (opened : ∀ index rule children rest, index < start →
      start < index + (Tree.decider rule children).size →
      motive (index + 1) (children ++ rest) → motive index (.decider rule children :: rest))
    (visit : ∀ index tree rest, start ≤ index →
      motive (index + Tree.size tree) rest → motive index (tree :: rest))
    (index : Nat) (forest : List Tree) : motive index forest := by
  induction total : size forest using Nat.strongRecOn generalizing index forest with
  | _ count ih =>
    cases forest with
    | nil => exact nil index
    | cons tree rest =>
      have used := tree.size_pos
      rw [size] at total
      have later := ih (size rest) (by omega) (index + tree.size) rest rfl
      rcases Nat.lt_or_ge index start with before | reached
      · rcases Nat.lt_or_ge start (index + tree.size) with within | skipped
        · cases tree with
          | action leaf =>
            rw [Tree.size] at within
            omega
          | decider rule children =>
            refine opened index rule children rest before within (ih _ ?_ _ _ rfl)
            rw [size_append]
            rw [Tree.size] at total
            omega
        · exact skip index tree rest skipped later
      · exact visit index tree rest reached later

variable {scene}

/-- No smaller tree delivers a cancel. -/
def NoneCancels (scene : Scene β) (size : Nat) : Prop :=
  ∀ tree : Tree, tree.size ≤ size → ∀ index course,
    (tree.interpret scene index course).1 ≠ .cancel

theorem NoneCancels.mono {smaller larger : Nat} (trees : NoneCancels scene larger)
    (less : smaller ≤ larger) : NoneCancels scene smaller :=
  fun tree bounded => trees tree (Nat.le_trans bounded less)

theorem sequence_ne_cancel {decider start index : Nat} {forest : List Tree}
    (trees : NoneCancels scene (size forest)) (course : Course β) :
    (sequence scene decider start index forest course).1 ≠ .cancel := by
  induction index, forest using sequence_induction start generalizing course with
  | nil index =>
    rw [sequence_nil]
    exact Status.noConfusion
  | skip index tree rest skipped ih =>
    rw [sequence_skip scene skipped]
    exact ih (trees.mono (size_le_rest tree rest)) course
  | opened index rule children rest before within ih =>
    rw [sequence_open scene before within]
    exact ih (trees.mono (size_le_opened rule children rest)) course
  | visit index tree rest reached ih =>
    rw [sequence_visit scene reached]
    split
    · exact ih (trees.mono (size_le_rest tree rest)) _
    · exact trees tree (size_le_first tree rest) index course

theorem dynamicPriority_ne_cancel {stop index : Nat} {forest : List Tree}
    (trees : NoneCancels scene (size forest)) (course : Course β) :
    (dynamicPriority scene stop index forest course).1 ≠ .cancel := by
  induction forest generalizing index course with
  | nil =>
    rw [dynamicPriority]
    exact Status.noConfusion
  | cons tree rest ih =>
    rw [dynamicPriority_cons]
    split
    · exact ih (trees.mono (size_le_rest tree rest)) _
    · exact trees tree (size_le_first tree rest) index course

theorem concurrent_ne_cancel {span : Span} {entered : Course β} {aggregate : Status} {index : Nat}
    {forest : List Tree} (start : aggregate ≠ .cancel) (course : Course β) :
    (concurrent scene span entered aggregate index forest course).1 ≠ .cancel := by
  induction forest generalizing index course aggregate with
  | nil =>
    rw [concurrent]
    exact start
  | cons tree rest ih =>
    rw [concurrent_cons]
    split
    · exact Status.noConfusion
    · refine ih ?_ _
      split
      · exact Status.noConfusion
      · exact start

end Forest

/-- No node delivers a cancel. -/
theorem Tree.interpret_ne_cancel {β : Type} (scene : Scene β) (tree : Tree) (index : Nat)
    (course : Course β) : (tree.interpret scene index course).1 ≠ .cancel := by
  induction tree using Tree.size_induction generalizing index course with
  | step tree ih =>
    cases tree with
    | action leaf =>
      rw [interpret]
      obtain ⟨status, added, entry, request, board, seed, delivers, visited⟩ :=
        (course.drain scene).visit_eq scene index leaf
      rw [visited]
      exact delivers.status_ne_cancel
    | decider rule children =>
      have trees : Forest.NoneCancels scene (Forest.size children) := by
        intro smaller less place started
        refine ih smaller ?_ place started
        rw [Tree.size]
        omega
      cases rule with
      | sequence =>
        rw [interpret]
        exact Forest.sequence_ne_cancel trees _
      | dynamicPriority =>
        rw [interpret]
        exact Forest.dynamicPriority_ne_cancel trees _
      | concurrent =>
        rw [interpret]
        exact Forest.concurrent_ne_cancel Status.noConfusion _

end BehaviorTree
