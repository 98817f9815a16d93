import BehaviorTree.Proofs.Course.Tour

namespace BehaviorTree
open Course
variable {β : Type} {scene : Scene β}

/-- What a monitor is shown: which atom is passed on which way, and how many deciders are open. -/
structure Notice where
  atom : Nat
  flags : Flags
  depth : Nat
  deriving DecidableEq

namespace Notice

def entered (index depth : Nat) : Notice := ⟨index, .enter ||| .fromTop, depth⟩

def left (index depth : Nat) : Notice := ⟨index, .leave ||| .fromBottom, depth⟩

/-- A decider is passed on the way down to a child. -/
def down (decider depth : Nat) : Notice := ⟨decider, .leave ||| .fromTop, depth⟩

/-- A decider is passed on the way up from a child. -/
def up (decider depth : Nat) : Notice := ⟨decider, .enter ||| .fromBottom, depth⟩

/-- The cancellation of each atom is shown as it begins and as it ends. -/
def ofCancels (depth : Nat) (atoms : List Nat) : List Notice :=
  atoms.flatMap fun atom => [⟨atom, .cancel ||| .enter, depth⟩, ⟨atom, .cancel ||| .leave, depth⟩]

/-- A notice of a cancellation. -/
def cancels (notice : Notice) : Bool := notice.flags.contains .cancel

/-- To pass an atom is not to cancel it. -/
@[simp] theorem cancels_passing (atom depth : Nat) :
    (entered atom depth).cancels = false ∧ (left atom depth).cancels = false ∧
      (down atom depth).cancels = false ∧ (up atom depth).cancels = false := by
  simp only [cancels, entered, left, down, up]
  decide

theorem cancels_of_mem_ofCancels {depth : Nat} {atoms : List Nat} {notice : Notice}
    (member : notice ∈ ofCancels depth atoms) : notice.cancels = true := by
  obtain ⟨atom, -, pair⟩ := List.mem_flatMap.mp member
  simp only [List.mem_cons, List.not_mem_nil, or_false] at pair
  rcases pair with rfl | rfl
  all_goals
    simp only [cancels]
    decide

end Notice

/-- A notice, and the atoms that are canceled right behind it. -/
structure Passage where
  notice : Notice
  canceled : List Nat := []

namespace Passage

/-- All that a monitor is shown in a passage. -/
def notices (passage : Passage) : List Notice :=
  passage.notice :: Notice.ofCancels passage.notice.depth passage.canceled

/-- Without the cancellations, what is shown are the notices of the passages. -/
theorem filter_notices {passages : List Passage}
    (passing : ∀ passage ∈ passages, passage.notice.cancels = false) (last : List Nat) :
    (passages.flatMap notices ++ Notice.ofCancels 0 last).filter (fun notice => !notice.cancels) =
      passages.map notice := by
  have none (depth : Nat) (atoms : List Nat) :
      (Notice.ofCancels depth atoms).filter (fun notice => !notice.cancels) = [] :=
    List.filter_eq_nil_iff.mpr fun notice member => by
      simp [Notice.cancels_of_mem_ofCancels member]
  induction passages with
  | nil => simpa using none 0 last
  | cons passage rest ih =>
    obtain ⟨here, others⟩ := List.forall_mem_cons.mp passing
    simp only [List.flatMap_cons, List.append_assoc, List.filter_append] at ih ⊢
    rw [ih others, notices, List.filter_cons_of_pos (by simp [here]), none]
    rfl

/-- What is canceled in a passage is canceled largest first, between the way down from a decider and
the entry that comes next. -/
def Batched : List Passage → Prop
  | [] => True
  | passage :: rest =>
      passage.canceled.Pairwise (· > ·) ∧
        (passage.canceled ≠ [] → passage.notice.flags = .leave ||| .fromTop ∧
          ∃ next ∈ rest.head?, next.notice.flags = .enter ||| .fromTop) ∧
        Batched rest

namespace Batched
variable {first second : List Passage}

theorem nil : Batched [] := trivial

theorem cons_quiet (notice : Notice) (batched : Batched first) : Batched (⟨notice, []⟩ :: first) :=
  ⟨.nil, fun used => absurd rfl used, batched⟩

theorem append (before : Batched first) (behind : Batched second) : Batched (first ++ second) := by
  induction first with
  | nil => exact behind
  | cons passage rest ih =>
    obtain ⟨falls, leads, batched⟩ := before
    refine ⟨falls, fun used => ?_, ih batched⟩
    obtain ⟨down, next, follows, enters⟩ := leads used
    refine ⟨down, next, ?_, enters⟩
    change next ∈ (rest ++ second).head?
    rw [List.head?_append, follows]
    rfl

theorem flatMap {α : Type} {items : List α} {passages : α → List Passage}
    (each : ∀ item ∈ items, Batched (passages item)) : Batched (items.flatMap passages) := by
  induction items with
  | nil => exact .nil
  | cons item rest ih =>
    obtain ⟨here, others⟩ := List.forall_mem_cons.mp each
    exact here.append (ih others)

end Batched

end Passage

namespace Course
variable (course : Course β) (scene : Scene β)

/-- The atoms that a drain cancels. -/
def due : List Nat := if course.pending.isEmpty then [] else course.toCancel scene

theorem canceled_drain :
    (course.drain scene).canceled = course.canceled ++ course.due scene := by
  rw [due]
  by_cases empty : course.pending.isEmpty = true
  · rw [drain_of_isEmpty scene empty, if_pos empty, List.append_nil]
  · rw [if_neg empty]
    obtain ⟨board, seed, calls, drained⟩ := drain_eq scene (Bool.eq_false_iff.mpr empty)
    rw [drained]

end Course

/-- What is due is canceled largest first. -/
theorem Sound.pairwise_due {position : Nat} {course : Course β}
    (sound : Sound scene position course) (ready : scene.Ready) :
    (course.due scene).Pairwise (· > ·) := by
  rw [due]
  split
  · exact .nil
  · exact pairwise_toCancel ready sound.ascending fun entry member =>
      (sound.outstanding entry member).1

mutual

/-- The passages of a tree that is visited, with a number of deciders open around it. -/
def Tree.passages (scene : Scene β) (depth index : Nat) : Tree → Course β → List Passage
  | .action _, _ => [⟨.entered index depth, []⟩, ⟨.left index depth, []⟩]
  | .decider rule children, course =>
      let start := scene.entrance index (index + 1 + Forest.size children) rule
      ⟨.entered index depth, []⟩ :: Forest.passages scene rule.goesOn index (depth + 1) start
          (Forest.behind start (index + 1) children) ((course.drain scene).enter index) ++
        [⟨.left index depth, []⟩]
  termination_by tree => 2 * tree.size
  decreasing_by
    have := Forest.size_behind_le (scene.entrance index (index + 1 + Forest.size children) rule)
      (index + 1) children
    simp only [Tree.size]
    omega

/-- The passages of trees that a decider visits in turn. -/
def Forest.passages (scene : Scene β) (goesOn : Status → Bool) (decider depth index : Nat) :
    List Tree → Course β → List Passage
  | [], _ => []
  | tree :: rest, course =>
      ⟨.down decider depth, course.due scene⟩ :: tree.passages scene depth index course ++
        ⟨.up decider depth, []⟩ ::
          if goesOn (tree.interpret scene index course).1 then
            Forest.passages scene goesOn decider depth (index + tree.size) rest
              (tree.interpret scene index course).2
          else []
  termination_by forest => 2 * Forest.size forest + 1
  decreasing_by
    all_goals
      have := tree.size_pos
      simp only [Forest.size]
      omega

end

theorem Forest.passages_cons (scene : Scene β) (goesOn : Status → Bool) (decider depth index : Nat)
    (tree : Tree) (rest : List Tree) (course : Course β) :
    Forest.passages scene goesOn decider depth index (tree :: rest) course =
      ⟨.down decider depth, course.due scene⟩ :: tree.passages scene depth index course ++
        ⟨.up decider depth, []⟩ ::
          if goesOn (tree.interpret scene index course).1 then
            Forest.passages scene goesOn decider depth (index + tree.size) rest
              (tree.interpret scene index course).2
          else [] := by
  rw [Forest.passages]

/-- All that a monitor is shown while a decider goes through its children. -/
def Forest.notices (scene : Scene β) (goesOn : Status → Bool) (decider depth index : Nat)
    (forest : List Tree) (course : Course β) : List Notice :=
  (Forest.passages scene goesOn decider depth index forest course).flatMap Passage.notices

theorem Forest.notices_nil (scene : Scene β) (goesOn : Status → Bool) (decider depth index : Nat)
    (course : Course β) : Forest.notices scene goesOn decider depth index [] course = [] := by
  rw [Forest.notices, Forest.passages]
  rfl

/-- What is shown on the way through the first child follows what has been shown before. -/
theorem Forest.append_notices_cons (shown : List Notice) (scene : Scene β)
    (goesOn : Status → Bool) (decider depth index : Nat) (tree : Tree) (rest : List Tree)
    (course : Course β) :
    shown ++ Forest.notices scene goesOn decider depth index (tree :: rest) course =
      shown ++ (⟨.down decider depth, course.due scene⟩ : Passage).notices ++
          (tree.passages scene depth index course).flatMap Passage.notices ++ [.up decider depth] ++
        if goesOn (tree.interpret scene index course).1 then
          Forest.notices scene goesOn decider depth (index + tree.size) rest
            (tree.interpret scene index course).2
        else [] := by
  rw [Forest.notices, Forest.passages_cons]
  split <;> simp [Forest.notices, Passage.notices, Notice.ofCancels]

mutual

/-- The notices of a tree of which some nodes are visited. A decider is passed between its entry and
its exit, on the way down to each child that is visited and on the way up again. -/
def Tree.walk (visited : Nat → Bool) (depth index : Nat) : Tree → List Notice
  | .action _ => [.entered index depth, .left index depth]
  | .decider _ children =>
      .entered index depth :: Forest.walk visited index (depth + 1) (index + 1) children ++
        [.left index depth]

/-- The notices of those children of a decider that are visited. -/
def Forest.walk (visited : Nat → Bool) (decider depth index : Nat) : List Tree → List Notice
  | [] => []
  | tree :: rest =>
      (if visited index then
        .down decider depth :: tree.walk visited depth index ++ [.up decider depth]
      else []) ++ Forest.walk visited decider depth (index + tree.size) rest

end

namespace Turn
variable (turn : Turn β) (scene : Scene β)

def passages (depth : Nat) : List Passage :=
  turn.tree.passages scene depth turn.index turn.course

/-- The first passage of a tree is its entry. -/
theorem passages_head (depth : Nat) :
    ∃ body, turn.passages scene depth = ⟨.entered turn.index depth, []⟩ :: body := by
  obtain ⟨tree, index, course⟩ := turn
  rw [passages]
  cases tree with
  | action leaf => exact ⟨_, by rw [Tree.passages]⟩
  | decider rule children => exact ⟨_, by rw [Tree.passages]; rfl⟩

/-- A decider is passed between its entry and its exit. -/
theorem notices_decider (rule : Rule) (children : List Tree) (index : Nat) (course : Course β)
    (depth : Nat) :
    (Turn.passages ⟨.decider rule children, index, course⟩ scene depth).flatMap Passage.notices =
      [.entered index depth] ++ Forest.notices scene rule.goesOn index (depth + 1)
          (scene.entrance index (index + 1 + Forest.size children) rule)
          (Forest.behind (scene.entrance index (index + 1 + Forest.size children) rule) (index + 1)
            children) ((course.drain scene).enter index) ++
        [.left index depth] := by
  rw [Turn.passages, Tree.passages]
  simp [Forest.notices, Passage.notices, Notice.ofCancels]

/-- The passages of a child, with the way down from its decider and the way up again. -/
def branch (decider depth : Nat) : List Passage :=
  ⟨.down decider depth, turn.course.due scene⟩ :: turn.passages scene depth ++
    [⟨.up decider depth, []⟩]

end Turn

namespace Turns
variable {goesOn : Status → Bool} {index : Nat} {forest : List Tree} {course after : Course β}
  {passed : List (Turn β)} {last : Option (Turn β)}

/-- The passages of a forest are those of the trees that have their turn. -/
theorem passages_eq (turns : Turns scene goesOn index forest course passed last after)
    (decider depth : Nat) :
    Forest.passages scene goesOn decider depth index forest course =
      (passed ++ last.toList).flatMap fun turn => turn.branch scene decider depth := by
  induction turns with
  | empty => rw [Forest.passages]; rfl
  | ends verdict =>
    rw [Forest.passages_cons]
    simp only [Turn.status, Turn.finish] at verdict
    simp [verdict, Turn.branch, Turn.passages]
  | next on later ih =>
    rw [Forest.passages_cons]
    simp only [Turn.status, Turn.finish] at on
    simp only [on, if_true, List.cons_append, List.flatMap_cons]
    rw [← ih]
    simp [Turn.branch, Turn.passages, Turn.after, Turn.finish]

/-- All trees that have their turn stand behind where the forest begins. -/
theorem index_le (turns : Turns scene goesOn index forest course passed last after) :
    ∀ turn ∈ passed ++ last.toList, index ≤ turn.index := by
  induction turns with
  | empty => exact fun _ none => nomatch none
  | ends => simp
  | next _ _ ih =>
    intro turn member
    rcases List.mem_cons.mp member with rfl | later
    · exact Nat.le_refl _
    · exact Nat.le_trans (Nat.le_add_right _ _) (ih turn later)

end Turns

/-- What a decider concludes cancels nothing. -/
theorem Rule.canceled_conclude (rule : Rule) (span : Span) (entered after : Course β)
    (passed : List (Turn β)) (last : Option (Turn β)) :
    (rule.conclude scene span entered passed last after).2.canceled = after.canceled := by
  cases last with
  | none => cases rule <;> rfl
  | some turn =>
    cases rule with
    | sequence =>
      simp only [conclude]
      split <;> rfl
    | dynamicPriority | concurrent => rfl

namespace Turn.Valid
variable (ready : scene.Ready)
include ready

/-- A decider is passed between its entry and its exit, in the branches of its children. -/
theorem passes {rule : Rule} {children : List Tree} {index : Nat} {course : Course β}
    (valid : Turn.Valid scene ⟨.decider rule children, index, course⟩) :
    ∃ passed last after,
      Unfolds scene rule ⟨index, index + 1 + Forest.size children⟩
        ((course.drain scene).enter index)
        (Forest.behind (scene.entrance index (index + 1 + Forest.size children) rule) (index + 1)
          children) passed last after ∧
      Turn.finish ⟨.decider rule children, index, course⟩ scene =
        rule.conclude scene ⟨index, index + 1 + Forest.size children⟩
          ((course.drain scene).enter index) passed last after ∧
      ∀ depth, Turn.passages ⟨.decider rule children, index, course⟩ scene depth =
        ⟨.entered index depth, []⟩ ::
            (passed ++ last.toList).flatMap (fun turn => turn.branch scene index (depth + 1)) ++
          [⟨.left index depth, []⟩] := by
  obtain ⟨passed, last, after, unfolds, finish_eq⟩ := valid.unfolds ready
  refine ⟨passed, last, after, unfolds, finish_eq, fun depth => ?_⟩
  rw [← unfolds.turns.passages_eq, Turn.passages, Tree.passages]

/-- What is canceled in a turn is canceled at its beginning or in the passages. -/
theorem canceled {turn : Turn β} (valid : turn.Valid scene) (depth : Nat) :
    (turn.after scene).canceled = (turn.course.drain scene).canceled ++
      (turn.passages scene depth).flatMap Passage.canceled := by
  revert depth
  refine Turn.Valid.induction
    (motive := fun turn => ∀ depth, (turn.after scene).canceled =
      (turn.course.drain scene).canceled ++ (turn.passages scene depth).flatMap Passage.canceled)
    (fun {leaf index course} valid depth => ?_)
    (fun {rule children index course} valid smaller depth => ?_) valid
  · obtain ⟨status, added, entry, request, board, seed, -, visits⟩ :=
      (course.drain scene).visit_eq scene index leaf
    simp [Turn.after, Turn.finish, Turn.passages, Tree.passages, Tree.interpret, visits]
  · obtain ⟨passed, last, after, unfolds, finish_eq, passages_eq⟩ := valid.passes ready
    obtain ⟨-, -, canceled⟩ := unfolds.afterTurns ready
      (motive := fun _ other done => other.canceled = (course.drain scene).canceled ++
        (done.flatMap fun turn => turn.branch scene index (depth + 1)).flatMap Passage.canceled)
      (fun turn done valid within before => by
        rw [smaller turn valid within (depth + 1), canceled_drain, before]
        simp [Turn.branch])
      (by simp [Course.enter])
    rw [passages_eq, Turn.after, finish_eq, Rule.canceled_conclude, canceled]
    simp

/-- What is canceled in a turn is canceled on the way down to what is entered next. -/
theorem batched {turn : Turn β} (valid : turn.Valid scene) (depth : Nat) :
    Passage.Batched (turn.passages scene depth) := by
  revert depth
  refine Turn.Valid.induction
    (motive := fun turn => ∀ depth, Passage.Batched (turn.passages scene depth))
    (fun {leaf index course} valid depth => ?_)
    (fun {rule children index course} valid smaller depth => ?_) valid
  · rw [Turn.passages, Tree.passages]
    exact .cons_quiet _ (.cons_quiet _ .nil)
  · obtain ⟨passed, last, after, unfolds, -, passages_eq⟩ := valid.passes ready
    rw [passages_eq]
    refine .cons_quiet _ (.append (.flatMap fun turn having => ?_) (.cons_quiet _ .nil))
    obtain ⟨child, within⟩ := unfolds.valid_of_mem ready turn having
    have inside := (smaller turn child within (depth + 1)).append
      (.cons_quiet (.up index (depth + 1)) .nil)
    obtain ⟨body, begins⟩ := turn.passages_head scene (depth + 1)
    refine ⟨child.sound.pairwise_due ready, fun _ => ⟨rfl, ⟨.entered turn.index (depth + 1), []⟩,
      ?_, rfl⟩, inside⟩
    rw [begins]
    rfl

end Turn.Valid

mutual

/-- On a walk, nothing is canceled. -/
theorem Tree.walk_passes (visited : Nat → Bool) (depth index : Nat) :
    (tree : Tree) → ∀ notice ∈ tree.walk visited depth index, notice.cancels = false
  | .action _ => by simp [Tree.walk]
  | .decider _ children => by
    have inside := Forest.walk_passes visited index (depth + 1) (index + 1) children
    simp only [Tree.walk, List.cons_append, List.forall_mem_cons, List.forall_mem_append]
    exact ⟨(Notice.cancels_passing _ _).1, inside, by simp⟩

theorem Forest.walk_passes (visited : Nat → Bool) (decider depth index : Nat) :
    (forest : List Tree) → ∀ notice ∈ Forest.walk visited decider depth index forest,
      notice.cancels = false
  | [] => by simp [Forest.walk]
  | tree :: rest => by
    have inside := tree.walk_passes visited depth index
    have others := Forest.walk_passes visited decider depth (index + tree.size) rest
    rw [Forest.walk, List.forall_mem_append]
    refine ⟨?_, others⟩
    split
    · simp only [List.cons_append, List.forall_mem_cons, List.forall_mem_append]
      exact ⟨by simp, inside, by simp⟩
    · simp

end

namespace Forest
variable {visited : Nat → Bool} {decider depth index : Nat}

theorem walk_append (first second : List Tree) :
    walk visited decider depth index (first ++ second) =
      walk visited decider depth index first ++
        walk visited decider depth (index + size first) second := by
  induction first generalizing index with
  | nil => rw [List.nil_append, walk, List.nil_append, size, Nat.add_zero]
  | cons tree rest ih =>
    rw [List.cons_append, walk, walk, ih, size, List.append_assoc, Nat.add_assoc]

/-- Where nothing is visited, there is nothing to notice. -/
theorem walk_unvisited {forest : List Tree}
    (unvisited : ∀ atom, index ≤ atom → atom < index + size forest → visited atom = false) :
    walk visited decider depth index forest = [] := by
  induction forest generalizing index with
  | nil => rw [walk]
  | cons tree rest ih =>
    rw [size] at unvisited
    have used := tree.size_pos
    rw [walk, unvisited index (Nat.le_refl _) (by omega), if_neg Bool.false_ne_true,
      List.nil_append]
    exact ih fun atom behind before => unvisited atom (by omega) (by omega)

end Forest

/-- Of the atoms in a stretch of the shape, exactly those count as visited that are entered. -/
def Marks (visited : Nat → Bool) (told : List Happening) (low high : Nat) : Prop :=
  ∀ atom, low ≤ atom → atom < high → (visited atom = true ↔ .entered atom ∈ told)

namespace Marks
variable {visited : Nat → Bool} {first second : List Happening} {low high : Nat}

theorem left (marks : Marks visited (first ++ second) low high)
    (apart : ∀ atom, low ≤ atom → atom < high → .entered atom ∉ second) :
    Marks visited first low high := by
  intro atom behind before
  rw [marks atom behind before, List.mem_append]
  exact or_iff_left (apart atom behind before)

theorem right (marks : Marks visited (first ++ second) low high)
    (apart : ∀ atom, low ≤ atom → atom < high → .entered atom ∉ first) :
    Marks visited second low high := by
  intro atom behind before
  rw [marks atom behind before, List.mem_append]
  exact or_iff_right (apart atom behind before)

theorem mono {inner outer : Nat} (marks : Marks visited first low high) (behind : low ≤ inner)
    (before : outer ≤ high) : Marks visited first inner outer :=
  fun atom later earlier => marks atom (by omega) (by omega)

end Marks

/-- In a turn, what is noticed on the way is the walk of its tree through what is visited. -/
def Turn.Follows (scene : Scene β) (turn : Turn β) : Prop :=
  ∀ depth visited, Marks visited (turn.tour scene) turn.index turn.stop →
    (turn.passages scene depth).map Passage.notice = turn.tree.walk visited depth turn.index

/-- The branch of a child is noticed in full. -/
theorem Turn.Follows.branch {turn : Turn β} {visited : Nat → Bool}
    (follows : turn.Follows scene) (decider depth : Nat)
    (marks : Marks visited (turn.tour scene) turn.index turn.stop) :
    (turn.branch scene decider depth).map Passage.notice =
      if visited turn.index then
        .down decider depth :: turn.tree.walk visited depth turn.index ++ [.up decider depth]
      else [] := by
  obtain ⟨rest, begins⟩ := turn.tour_head scene
  have entered : visited turn.index = true := by
    rw [marks turn.index (Nat.le_refl _) turn.index_lt_stop, begins]
    exact List.mem_cons_self
  rw [if_pos entered, ← follows depth visited marks, Turn.branch]
  simp

/-- The branches of the turns are noticed in full, and nothing else is. -/
theorem Turns.walk_eq (ready : scene.Ready) {goesOn : Status → Bool} {index : Nat}
    {forest : List Tree} {course after : Course β} {passed : List (Turn β)}
    {last : Option (Turn β)} (turns : Turns scene goesOn index forest course passed last after)
    (follows : ∀ turn ∈ passed ++ last.toList, turn.Valid scene ∧ turn.Follows scene)
    {visited : Nat → Bool} (decider depth : Nat)
    (marks : Marks visited ((passed ++ last.toList).flatMap fun turn => turn.tour scene) index
      (index + Forest.size forest)) :
    ((passed ++ last.toList).flatMap fun turn => turn.branch scene decider depth).map
        Passage.notice = Forest.walk visited decider depth index forest := by
  induction turns with
  | empty => rw [Forest.walk]; rfl
  | @ends index tree rest course verdict =>
    obtain ⟨valid, follow⟩ := follows ⟨tree, index, course⟩ (by simp)
    simp only [List.nil_append, Option.toList_some, List.flatMap_singleton] at marks ⊢
    rw [Forest.size] at marks
    have here : Marks visited (Turn.tour ⟨tree, index, course⟩ scene) index (index + tree.size) :=
      marks.mono (Nat.le_refl _) (by omega)
    -- What stands behind the last turn has not been entered.
    have nothing : Forest.walk visited decider depth (index + tree.size) rest = [] := by
      apply Forest.walk_unvisited
      intro atom behind before
      rw [← Bool.not_eq_true, marks atom (by omega) (by omega)]
      intro entered
      have within := (valid.tour_within ready _ entered).2
      exact absurd within (Nat.not_lt.mpr behind)
    rw [follow.branch decider depth here, Forest.walk, nothing, List.append_nil]
  | @next index tree rest course after passed last on later ih =>
    obtain ⟨valid, follow⟩ := follows ⟨tree, index, course⟩ (by simp)
    have others : ∀ turn ∈ passed ++ last.toList, turn.Valid scene ∧ turn.Follows scene :=
      fun turn member => follows turn (List.mem_cons_of_mem _ member)
    simp only [List.cons_append, List.flatMap_cons, List.map_append] at marks ⊢
    rw [Forest.size, ← Nat.add_assoc] at marks
    have here : Marks visited (Turn.tour ⟨tree, index, course⟩ scene) index
        (index + tree.size) := by
      apply Marks.left (marks.mono (Nat.le_refl _) (Nat.le_add_right _ _))
      intro atom _ before entered
      obtain ⟨turn, having, told⟩ := List.mem_flatMap.mp entered
      have behind := Nat.le_trans (later.index_le turn having)
        ((others turn having).1.tour_within ready _ told).1
      exact absurd before (Nat.not_lt.mpr behind)
    have behind : Marks visited ((passed ++ last.toList).flatMap fun turn => turn.tour scene)
        (index + tree.size) (index + tree.size + Forest.size rest) := by
      apply Marks.right (marks.mono (Nat.le_add_right _ _) (Nat.le_refl _))
      intro atom reached _ entered
      exact absurd (valid.tour_within ready _ entered).2 (Nat.not_lt.mpr reached)
    rw [ih others behind, follow.branch decider depth here, Forest.walk]

/-- Where the actor remembers direct children of its sequences, a decider passes over whole
children. -/
theorem Scene.Direct.split_children (direct : scene.Direct) {rule : Rule} {children : List Tree}
    {index : Nat} (holds : scene.shape.Holds index ((Tree.decider rule children).listing index))
    (used : children ≠ []) :
    ∃ skipped, children = skipped ++ Forest.behind
        (scene.entrance index (index + 1 + Forest.size children) rule) (index + 1) children ∧
      scene.entrance index (index + 1 + Forest.size children) rule =
        index + 1 + Forest.size skipped := by
  cases rule with
  | sequence =>
    obtain ⟨stands, below⟩ := Shape.holds_cons.mp holds
    have child := Forest.size_pos used
    have isChild := direct.start_isChild stands (by omega)
    exact Forest.behind_of_mem_roots (isChild.mem_roots below)
  | dynamicPriority | concurrent =>
    exact ⟨[], (Forest.behind_reached (Nat.le_refl _)).symm, rfl⟩

/-- Where the actor remembers direct children of its sequences, each turn follows the walk of its
tree. -/
theorem Turn.Valid.follows (ready : scene.Ready) (direct : scene.Direct) {turn : Turn β}
    (valid : turn.Valid scene) : turn.Follows scene := by
  refine Turn.Valid.induction (motive := Turn.Follows scene)
    (fun {leaf index course} valid depth visited marks => ?_)
    (fun {rule children index course} valid smaller depth visited marks => ?_) valid
  · rw [Turn.passages, Tree.passages, Tree.walk]
    rfl
  · obtain ⟨passed, last, after, unfolds, -, passages_eq⟩ := valid.passes ready
    obtain ⟨skipped, split, start_eq⟩ := direct.split_children valid.holds valid.proper.1
    have total := unfolds.total
    have stop_eq : Turn.stop ⟨.decider rule children, index, course⟩ =
        index + 1 + Forest.size children := by
      rw [Turn.stop, Tree.size, Nat.add_assoc]
    have tour_eq : Turn.tour ⟨.decider rule children, index, course⟩ scene =
        [.entered index] ++ ((passed ++ last.toList).flatMap (fun turn => turn.tour scene) ++
          [.left index (Turn.status ⟨.decider rule children, index, course⟩ scene)]) := by
      rw [← unfolds.turns.tour_eq, Turn.tour, Tree.tour]
      rfl
    have turns_valid := unfolds.valid_of_mem ready
    rw [stop_eq, tour_eq] at marks
    have below : Marks visited ((passed ++ last.toList).flatMap fun turn => turn.tour scene)
        (index + 1) (index + 1 + Forest.size children) := by
      apply Marks.left
      · apply Marks.right (marks.mono (Nat.le_succ index) (Nat.le_refl _))
        intro atom behind _ entered
        obtain rfl := Happening.entered.inj (List.mem_singleton.mp entered)
        exact Nat.lt_irrefl _ behind
      · intro atom _ _ entered
        cases List.mem_singleton.mp entered
    have size_eq := congrArg Forest.size split
    rw [Forest.size_append] at size_eq
    -- The walk through all children is the one through those from the entrance on.
    have nothing : Forest.walk visited index (depth + 1) (index + 1) skipped = [] := by
      apply Forest.walk_unvisited
      intro atom behind before
      rw [← Bool.not_eq_true, below atom behind (by omega)]
      intro entered
      obtain ⟨turn, having, told⟩ := List.mem_flatMap.mp entered
      have reached := unfolds.turns.index_le turn having
      have within := ((turns_valid turn having).1.tour_within ready _ told).1
      simp only [Happening.atom] at *
      omega
    have visits : ∀ turn ∈ passed ++ last.toList, turn.Valid scene ∧ turn.Follows scene :=
      fun turn having => ⟨(turns_valid turn having).1,
        smaller turn (turns_valid turn having).1 (turns_valid turn having).2⟩
    have walks := unfolds.turns.walk_eq ready visits index (depth + 1) (by
      rw [total]
      exact below.mono unfolds.behind (Nat.le_refl _))
    rw [passages_eq, Tree.walk, split, Forest.walk_append, nothing, List.nil_append, ← start_eq,
      ← walks]
    simp

end BehaviorTree
