import BehaviorTree.Proofs.Course.Direct

/-!
Whatever its rule, a decider visits trees in turn, so what holds from turn to turn is shown once for
all rules.
-/

namespace BehaviorTree
open Course
variable {β : Type} {scene : Scene β}

/-- The statuses of a child after which the next one is visited. -/
def Rule.goesOn : Rule → Status → Bool
  | .sequence, status => decide (status = .success)
  | .dynamicPriority, status => decide (status = .fail)
  | .concurrent, status => decide (status ≠ .fail)

/-- Only a concurrent decider goes on after an active child. -/
theorem Rule.idle_of_goesOn {rule : Rule} (different : rule ≠ .concurrent) {status : Status}
    (on : rule.goesOn status = true) : status.isActive = false := by
  cases rule with
  | sequence => rw [of_decide_eq_true on, Status.isActive]
  | dynamicPriority => rw [of_decide_eq_true on, Status.isActive]
  | concurrent => exact absurd rfl different

/-- The child of a decider that is visited first. -/
def Scene.entrance (scene : Scene β) (index stop : Nat) : Rule → Nat
  | .sequence => scene.start index stop
  | .dynamicPriority | .concurrent => index + 1

/-- A tree at its turn: where its root stands, and the course as its visit begins. -/
structure Turn (β : Type) where
  tree : Tree
  index : Nat
  course : Course β

namespace Turn

/-- What the visit comes to. -/
def finish (turn : Turn β) (scene : Scene β) : Status × Course β :=
  turn.tree.interpret scene turn.index turn.course

/-- What the root delivers. -/
def status (turn : Turn β) (scene : Scene β) : Status := (turn.finish scene).1

/-- The course as the visit leaves it. -/
def after (turn : Turn β) (scene : Scene β) : Course β := (turn.finish scene).2

/-- The index just past the tree. -/
def stop (turn : Turn β) : Nat := turn.index + turn.tree.size

/-- The tree lies behind a decider and before its end. -/
def Within (turn : Turn β) (span : Span) : Prop :=
  span.start < turn.index ∧ turn.stop ≤ span.stop

/-- The tree stands in the shape, and the course is sound there. -/
structure Valid (scene : Scene β) (turn : Turn β) : Prop where
  holds : scene.shape.Holds turn.index (turn.tree.listing turn.index)
  proper : turn.tree.Proper
  sound : Sound scene turn.index turn.course

namespace Valid
variable {turn : Turn β}

theorem sound_after (ready : scene.Ready) (valid : turn.Valid scene) :
    Sound scene turn.stop (turn.after scene) :=
  turn.tree.sound_interpret ready valid.holds valid.sound

theorem stopAt (valid : turn.Valid scene) : scene.shape.stopAt turn.index = turn.stop :=
  Shape.stopAt_tree valid.holds

end Valid

theorem grows (turn : Turn β) (scene : Scene β) :
    Grows turn.index turn.course (turn.after scene) :=
  turn.tree.grows scene turn.index turn.course

theorem status_ne_cancel (turn : Turn β) (scene : Scene β) : turn.status scene ≠ .cancel :=
  turn.tree.interpret_ne_cancel scene turn.index turn.course

theorem index_lt_stop (turn : Turn β) : turn.index < turn.stop :=
  Nat.lt_add_of_pos_right turn.tree.size_pos

end Turn

/-- Trees are visited in turn from an index on: those after which it goes on, then the last one
unless none is left, and the course behind them. -/
inductive Turns (scene : Scene β) (goesOn : Status → Bool) :
    Nat → List Tree → Course β → List (Turn β) → Option (Turn β) → Course β → Prop
  | empty (index : Nat) (course : Course β) : Turns scene goesOn index [] course [] none course
  | ends {index : Nat} {tree : Tree} {rest : List Tree} {course : Course β}
      (verdict : goesOn (Turn.status ⟨tree, index, course⟩ scene) = false) :
      Turns scene goesOn index (tree :: rest) course [] (some ⟨tree, index, course⟩)
        (Turn.after ⟨tree, index, course⟩ scene)
  | next {index : Nat} {tree : Tree} {rest : List Tree} {course after : Course β}
      {passed : List (Turn β)} {last : Option (Turn β)}
      (on : goesOn (Turn.status ⟨tree, index, course⟩ scene) = true)
      (later : Turns scene goesOn (index + tree.size) rest
        (Turn.after ⟨tree, index, course⟩ scene) passed last after) :
      Turns scene goesOn index (tree :: rest) course (⟨tree, index, course⟩ :: passed) last after

namespace Turns
variable {goesOn : Status → Bool} {index bound : Nat} {forest : List Tree} {course after : Course β}
  {passed done : List (Turn β)} {last : Option (Turn β)}

/-- There are always turns. -/
theorem exist (scene : Scene β) (goesOn : Status → Bool) (index : Nat) (forest : List Tree)
    (course : Course β) : ∃ passed last after,
      Turns scene goesOn index forest course passed last after := by
  induction forest generalizing index course with
  | nil => exact ⟨[], none, course, .empty index course⟩
  | cons tree rest ih =>
    cases on : goesOn (Turn.status ⟨tree, index, course⟩ scene) with
    | false => exact ⟨_, _, _, .ends on⟩
    | true =>
      obtain ⟨passed, last, after, later⟩ :=
        ih (index + tree.size) (Turn.after ⟨tree, index, course⟩ scene)
      exact ⟨_, last, after, .next on later⟩

/-- After the trees before the last one it goes on. -/
theorem goesOn_of_mem (turns : Turns scene goesOn index forest course passed last after) :
    ∀ turn ∈ passed, goesOn (turn.status scene) = true := by
  induction turns with
  | empty | ends => simp
  | next on _ ih =>
    intro turn member
    rcases List.mem_cons.mp member with rfl | later
    · exact on
    · exact ih turn later

/-- What each turn preserves, after which it goes on, holds at the last turn, or behind the forest
if there is none. -/
theorem invariant (ready : scene.Ready) {span : Span}
    {motive : Nat → Course β → List (Turn β) → Prop}
    (step : ∀ turn done, turn.Valid scene → turn.Within span →
      goesOn (turn.status scene) = true → motive turn.index turn.course done →
        motive turn.stop (turn.after scene) (done ++ [turn]))
    (turns : Turns scene goesOn index forest course passed last after)
    (holds : scene.shape.Holds index (Forest.listing index forest))
    (proper : Forest.Proper forest) (behind : span.start < index)
    (total : index + Forest.size forest = span.stop) (sound : Sound scene index course)
    (first : motive index course done) :
    (last = none → Sound scene span.stop after ∧ motive span.stop after (done ++ passed)) ∧
    ∀ turn, last = some turn → turn.Valid scene ∧ turn.Within span ∧
      goesOn (turn.status scene) = false ∧ after = turn.after scene ∧
      motive turn.index turn.course (done ++ passed) := by
  induction turns generalizing done with
  | empty index course =>
    rw [Forest.size, Nat.add_zero] at total
    rw [← total, List.append_nil]
    exact ⟨fun _ => ⟨sound, first⟩, fun turn found => by cases found⟩
  | @ends index tree rest course verdict =>
    obtain ⟨here, -⟩ := Shape.holds_forest_cons.mp holds
    rw [Forest.size, ← Nat.add_assoc] at total
    rw [List.append_nil]
    refine ⟨fun ended => (by cases ended), fun turn same => ?_⟩
    obtain rfl := Option.some.inj same
    exact ⟨⟨here, proper.1, sound⟩, ⟨behind, total ▸ Nat.le_add_right _ _⟩, verdict, rfl, first⟩
  | @next index tree rest course after passed last on _ ih =>
    obtain ⟨here, later⟩ := Shape.holds_forest_cons.mp holds
    have valid : Turn.Valid scene ⟨tree, index, course⟩ := ⟨here, proper.1, sound⟩
    rw [Forest.size, ← Nat.add_assoc] at total
    have kept := step _ done valid ⟨behind, total ▸ Nat.le_add_right _ _⟩ on first
    have others := ih later proper.2 (Nat.lt_of_lt_of_le behind (Nat.le_add_right _ _)) total
      (valid.sound_after ready) kept
    rwa [List.append_assoc, List.singleton_append] at others

end Turns

/-- What a decider concludes from the turns of its children: from the last one, or from their having
passed if none was the last. -/
def Rule.conclude (rule : Rule) (scene : Scene β) (span : Span) (entered : Course β)
    (passed : List (Turn β)) (last : Option (Turn β)) (after : Course β) : Status × Course β :=
  match rule, last with
  | .sequence, none => (.success, after)
  | .sequence, some turn =>
      (turn.status scene,
        if (turn.status scene).isActive then after.record span.start turn.index else after)
  | .dynamicPriority, none => (.fail, after)
  | .dynamicPriority, some turn => (turn.status scene, after.abandon ⟨turn.stop, span.stop⟩)
  | .concurrent, none =>
      (if passed.any fun turn => (turn.status scene).isActive then .running else .success, after)
  | .concurrent, some _ => (.fail, (after.takeBack entered).abandon span)

/-- What a decider concludes keeps nothing new. -/
theorem Rule.keeps_of_conclude {rule : Rule} {span : Span} {entered after : Course β}
    {passed : List (Turn β)} {last : Option (Turn β)} {entry : Entry Status}
    (kept : (rule.conclude scene span entered passed last after).2.Keeps entry) :
    after.Keeps entry := by
  cases last with
  | none => cases rule <;> exact kept
  | some turn =>
    cases rule with
    | sequence =>
      simp only [conclude] at kept
      split at kept <;> exact kept
    | dynamicPriority => exact keeps_of_abandon kept
    | concurrent => exact keeps_of_abandon kept

/-- To conclude is to visit nothing more. -/
theorem Rule.visited_conclude (rule : Rule) (span : Span) (entered after : Course β)
    (passed : List (Turn β)) (last : Option (Turn β)) :
    (rule.conclude scene span entered passed last after).2.visited = after.visited := by
  cases last with
  | none => cases rule <;> rfl
  | some turn =>
    cases rule with
    | sequence =>
      simp only [conclude]
      split <;> rfl
    | dynamicPriority | concurrent => rfl

namespace Forest
variable {shape : Shape β} {start index : Nat} {forest : List Tree}

/-- The trees of a forest from a start on; a start within a tree opens that tree. -/
def behind (start index : Nat) : List Tree → List Tree
  | [] => []
  | .action leaf :: rest =>
      if index < start then behind start (index + 1) rest else .action leaf :: rest
  | .decider rule children :: rest =>
      if index + (Tree.decider rule children).size ≤ start then
        behind start (index + (Tree.decider rule children).size) rest
      else if index < start then behind start (index + 1) children ++ rest
      else .decider rule children :: rest
  termination_by forest => size forest
  decreasing_by
    all_goals
      simp only [size, Tree.size]
      omega

theorem behind_reached (reached : start ≤ index) : behind start index forest = forest := by
  have notBefore : ¬index < start := Nat.not_lt.mpr reached
  cases forest with
  | nil => rw [behind]
  | cons tree rest =>
    have used := tree.size_pos
    have notSkipped : ¬index + tree.size ≤ start := by omega
    cases tree with
    | action leaf => rw [behind, if_neg notBefore]
    | decider rule children => rw [behind, if_neg notSkipped, if_neg notBefore]

theorem behind_skip {tree : Tree} {rest : List Tree} (skipped : index + tree.size ≤ start) :
    behind start index (tree :: rest) = behind start (index + tree.size) rest := by
  cases tree with
  | action leaf => rw [behind, if_pos (show index < start from skipped), Tree.size]
  | decider rule children => rw [behind, if_pos skipped]

theorem behind_append {first second : List Tree} (inside : start < index + size first) :
    behind start index (first ++ second) = behind start index first ++ second := by
  induction first generalizing index with
  | nil =>
    rw [size] at inside
    rw [List.nil_append, behind, List.nil_append, behind_reached (by omega)]
  | cons tree rest ih =>
    rw [size] at inside
    by_cases skipped : index + tree.size ≤ start
    · rw [List.cons_append, behind_skip skipped, behind_skip skipped, ih (by omega)]
    · cases tree with
      | action leaf =>
        have notBefore : ¬index < start := fun before => skipped before
        simp [behind, notBefore]
      | decider rule children =>
        simp only [List.cons_append, behind, if_neg skipped]
        split <;> simp

theorem behind_open {rule : Rule} {children rest : List Tree} (before : index < start)
    (within : start < index + (Tree.decider rule children).size) :
    behind start index (.decider rule children :: rest) =
      behind start (index + 1) (children ++ rest) := by
  have notSkipped : ¬index + (Tree.decider rule children).size ≤ start := by omega
  have inside : start < index + 1 + size children := by
    rw [Tree.size] at within
    omega
  rw [behind_append inside]
  simp [behind, notSkipped, before]

/-- Before a start at one of the roots stand whole trees. -/
theorem behind_of_mem_roots (direct : start ∈ roots index forest) :
    ∃ passed, forest = passed ++ behind start index forest ∧ start = index + size passed := by
  induction forest generalizing index with
  | nil => cases direct
  | cons tree rest ih =>
    rcases List.mem_cons.mp direct with rfl | later
    · exact ⟨[], (behind_reached (Nat.le_refl start)).symm, rfl⟩
    · obtain ⟨passed, split, start_eq⟩ := ih later
      refine ⟨tree :: passed, ?_, by rw [start_eq, size, Nat.add_assoc]⟩
      rw [behind_skip (le_of_mem_roots later), List.cons_append, ← split]

/-- An induction that follows the way to a start within a forest. -/
theorem behind_induction {motive : Nat → List Tree → Prop}
    (reached : ∀ forest, motive start forest)
    (skip : ∀ index tree rest, index + Tree.size tree ≤ start →
      motive (index + tree.size) rest → motive index (tree :: rest))
    (opened : ∀ index rule children rest, index < start →
      start < index + (Tree.decider rule children).size →
      motive (index + 1) (children ++ rest) → motive index (.decider rule children :: rest))
    (index : Nat) (forest : List Tree) (before : index ≤ start)
    (inside : start < index + size forest) : motive index forest := by
  induction index, forest using sequence_induction start with
  | nil index =>
    rw [size] at inside
    omega
  | skip index tree rest skipped ih =>
    rw [size] at inside
    exact skip index tree rest skipped (ih skipped (by omega))
  | opened index rule children rest less within ih =>
    apply opened index rule children rest less within (ih less _)
    rw [Tree.size] at within
    rw [size_append]
    omega
  | visit index tree rest reached_here =>
    obtain rfl : start = index := by omega
    exact reached _

section
variable (before : index ≤ start) (inside : start < index + size forest)
include before inside

theorem size_behind : start + size (behind start index forest) = index + size forest := by
  refine behind_induction
    (motive := fun index forest => start + size (behind start index forest) = index + size forest)
    (fun forest => ?_) (fun index tree rest skipped ih => ?_)
    (fun index rule children rest less within ih => ?_) index forest before inside
  · rw [behind_reached (Nat.le_refl start)]
  · rw [behind_skip skipped, ih, size, Nat.add_assoc]
  · rw [behind_open less within, ih, size_append, size, Tree.size]
    omega

theorem holds_behind (holds : shape.Holds index (listing index forest)) :
    shape.Holds start (listing start (behind start index forest)) := by
  revert holds
  refine behind_induction
    (motive := fun index forest => shape.Holds index (listing index forest) →
      shape.Holds start (listing start (behind start index forest)))
    (fun forest holds => ?_) (fun index tree rest skipped ih holds => ?_)
    (fun index rule children rest less within ih holds => ?_) index forest before inside
  · rwa [behind_reached (Nat.le_refl start)]
  · rw [behind_skip skipped]
    exact ih (Shape.holds_forest_cons.mp holds).2
  · rw [behind_open less within]
    exact ih (Shape.holds_forest_open holds)

theorem proper_behind (proper : Proper forest) : Proper (behind start index forest) := by
  revert proper
  refine behind_induction
    (motive := fun index forest => Proper forest → Proper (behind start index forest))
    (fun forest proper => ?_) (fun index tree rest skipped ih proper => ?_)
    (fun index rule children rest less within ih proper => ?_) index forest before inside
  · rwa [behind_reached (Nat.le_refl start)]
  · rw [behind_skip skipped]
    exact ih proper.2
  · rw [behind_open less within]
    exact ih ((proper_append children rest).mpr ⟨proper.1.2, proper.2⟩)

/-- A sequence visits the trees from its start on in turn. -/
theorem sequence_behind (scene : Scene β) (decider : Nat) (course : Course β) :
    sequence scene decider start index forest course =
      inTurn scene decider start (behind start index forest) course := by
  refine behind_induction
    (motive := fun index forest => sequence scene decider start index forest course =
      inTurn scene decider start (behind start index forest) course)
    (fun forest => ?_) (fun index tree rest skipped ih => ?_)
    (fun index rule children rest less within ih => ?_) index forest before inside
  · rw [behind_reached (Nat.le_refl start), sequence_inTurn scene (Nat.le_refl start)]
  · rw [behind_skip skipped, sequence_skip scene skipped, ih]
  · rw [behind_open less within, sequence_open scene less within, ih]

end

end Forest

namespace Turns
variable {index : Nat} {forest : List Tree} {course after : Course β} {passed done : List (Turn β)}
  {last : Option (Turn β)}

theorem inTurn_eq (turns : Turns scene Rule.sequence.goesOn index forest course passed last after)
    (span : Span) (entered : Course β) :
    Forest.inTurn scene span.start index forest course =
      Rule.sequence.conclude scene span entered done last after := by
  induction turns with
  | empty => rw [Forest.inTurn, Rule.conclude]
  | ends verdict =>
    have failed := of_decide_eq_false verdict
    rw [Forest.inTurn]
    exact if_neg failed
  | next on later ih =>
    have succeeded := of_decide_eq_true on
    rw [Forest.inTurn]
    exact (if_pos succeeded).trans ih

theorem dynamicPriority_eq
    (turns : Turns scene Rule.dynamicPriority.goesOn index forest course passed last after)
    (span : Span) (entered : Course β) :
    Forest.dynamicPriority scene span.stop index forest course =
      Rule.dynamicPriority.conclude scene span entered done last after := by
  induction turns with
  | empty => rw [Forest.dynamicPriority, Rule.conclude]
  | ends verdict =>
    have succeeded := of_decide_eq_false verdict
    rw [Forest.dynamicPriority_cons]
    exact if_neg succeeded
  | next on later ih =>
    have failed := of_decide_eq_true on
    rw [Forest.dynamicPriority_cons]
    exact (if_pos failed).trans ih

theorem concurrent_eq
    (turns : Turns scene Rule.concurrent.goesOn index forest course passed last after)
    (span : Span) (entered : Course β) (done : List (Turn β)) :
    Forest.concurrent scene span entered
        (if done.any fun turn => (turn.status scene).isActive then .running else .success)
        index forest course =
      Rule.concurrent.conclude scene span entered (done ++ passed) last after := by
  induction turns generalizing done with
  | empty => rw [Forest.concurrent, List.append_nil, Rule.conclude]
  | ends verdict =>
    have failed := of_decide_eq_false verdict
    rw [Forest.concurrent_cons]
    exact if_pos (not_not.mp failed)
  | @next index tree rest course _ _ _ on later ih =>
    have passed := of_decide_eq_true on
    rw [Forest.concurrent_cons]
    refine (if_neg passed).trans ?_
    rw [List.append_cons, ← ih]
    -- The aggregate is running as soon as one child has been active.
    have aggregate (before : Bool) (active : Bool) :
        (if active then Status.running else if before then .running else .success) =
          if before || active then .running else .success := by
      cases before <;> cases active <;> rfl
    rw [List.any_append, List.any_cons, List.any_nil, Bool.or_false, ← aggregate]
    rfl

end Turns

/-- How a decider goes through its children. -/
structure Unfolds (scene : Scene β) (rule : Rule) (span : Span) (entered : Course β)
    (forest : List Tree) (passed : List (Turn β)) (last : Option (Turn β)) (after : Course β) :
    Prop where
  stands : scene.shape.atom? span.start = some (.decider rule span.stop)
  behind : span.start < scene.entrance span.start span.stop rule
  before : scene.entrance span.start span.stop rule < span.stop
  total : scene.entrance span.start span.stop rule + Forest.size forest = span.stop
  holds : scene.shape.Holds (scene.entrance span.start span.stop rule)
    (Forest.listing (scene.entrance span.start span.stop rule) forest)
  proper : Forest.Proper forest
  sound : Sound scene (scene.entrance span.start span.stop rule) entered
  turns : Turns scene rule.goesOn (scene.entrance span.start span.stop rule) forest entered passed
    last after

theorem Scene.lt_entrance (scene : Scene β) (index stop : Nat) (rule : Rule) :
    index < scene.entrance index stop rule := by
  cases rule with
  | sequence => exact scene.lt_start index stop
  | _ => exact Nat.lt_succ_self index

theorem Scene.entrance_lt (scene : Scene β) {index stop : Nat} (child : index + 1 < stop)
    (rule : Rule) : scene.entrance index stop rule < stop := by
  cases rule with
  | sequence => exact scene.start_lt child
  | _ => exact child

namespace Unfolds
variable {rule : Rule} {span : Span} {entered after : Course β} {forest : List Tree}
  {passed : List (Turn β)} {last : Option (Turn β)}

/-- What each turn preserves, after which the decider goes on, holds at the last turn, or at the end
of the decider if there is none. -/
theorem invariant (ready : scene.Ready)
    (unfolds : Unfolds scene rule span entered forest passed last after)
    {motive : Nat → Course β → List (Turn β) → Prop}
    (step : ∀ turn done, turn.Valid scene → turn.Within span →
      rule.goesOn (turn.status scene) = true → motive turn.index turn.course done →
        motive turn.stop (turn.after scene) (done ++ [turn]))
    (first : motive (scene.entrance span.start span.stop rule) entered []) :
    (last = none → Sound scene span.stop after ∧ motive span.stop after passed) ∧
    ∀ turn, last = some turn → turn.Valid scene ∧ turn.Within span ∧
      rule.goesOn (turn.status scene) = false ∧ after = turn.after scene ∧
      motive turn.index turn.course passed :=
  unfolds.turns.invariant ready step unfolds.holds unfolds.proper unfolds.behind unfolds.total
    unfolds.sound first

/-- What every turn preserves holds behind all turns, the last one included. -/
theorem afterTurns (ready : scene.Ready)
    (unfolds : Unfolds scene rule span entered forest passed last after)
    {motive : Nat → Course β → List (Turn β) → Prop}
    (step : ∀ turn done, turn.Valid scene → turn.Within span →
      motive turn.index turn.course done →
        motive turn.stop (turn.after scene) (done ++ [turn]))
    (first : motive (scene.entrance span.start span.stop rule) entered []) :
    ∃ index, index ≤ span.stop ∧ motive index after (passed ++ last.toList) := by
  obtain ⟨passes, ends⟩ := unfolds.invariant ready
    (fun turn done valid within _ => step turn done valid within) first
  cases last with
  | none =>
    rw [Option.toList_none, List.append_nil]
    exact ⟨span.stop, Nat.le_refl _, (passes rfl).2⟩
  | some turn =>
    obtain ⟨valid, within, -, rfl, before⟩ := ends turn rfl
    exact ⟨turn.stop, within.2, step turn passed valid within before⟩

/-- The turns of the children are valid and lie within the span. -/
theorem valid_of_mem (ready : scene.Ready)
    (unfolds : Unfolds scene rule span entered forest passed last after) :
    ∀ turn ∈ passed ++ last.toList, turn.Valid scene ∧ turn.Within span := by
  obtain ⟨-, -, all⟩ := unfolds.afterTurns ready
    (motive := fun _ _ done => ∀ turn ∈ done, turn.Valid scene ∧ turn.Within span)
    (fun turn done valid within before => by
      rw [List.forall_mem_append]
      exact ⟨before, List.forall_mem_singleton.mpr ⟨valid, within⟩⟩)
    (fun turn member => by cases member)
  exact all

end Unfolds

namespace Turn.Valid

/-- A decider visits its children in turn and concludes from their turns. -/
theorem unfolds {rule : Rule} {children : List Tree} {index : Nat} {course : Course β}
    (ready : scene.Ready) (valid : Turn.Valid scene ⟨.decider rule children, index, course⟩) :
    ∃ passed last after,
      Unfolds scene rule ⟨index, index + 1 + Forest.size children⟩
        ((course.drain scene).enter index)
        (Forest.behind (scene.entrance index (index + 1 + Forest.size children) rule) (index + 1)
          children) passed last after ∧
      Turn.finish ⟨.decider rule children, index, course⟩ scene =
        rule.conclude scene ⟨index, index + 1 + Forest.size children⟩
          ((course.drain scene).enter index) passed last after := by
  obtain ⟨stands, below⟩ := Shape.holds_cons.mp valid.holds
  have used := Forest.size_pos valid.proper.1
  have behind := scene.lt_entrance index (index + 1 + Forest.size children) rule
  have before := scene.entrance_lt (show index + 1 < index + 1 + Forest.size children by omega) rule
  have inside : index + (1 + Forest.size children) ≤ scene.shape.size := valid.holds.le_size
  obtain ⟨passed, last, after, turns⟩ := Turns.exist scene rule.goesOn
    (scene.entrance index (index + 1 + Forest.size children) rule)
    (Forest.behind (scene.entrance index (index + 1 + Forest.size children) rule) (index + 1)
      children) ((course.drain scene).enter index)
  refine ⟨passed, last, after, ⟨stands, behind, before, Forest.size_behind behind before,
    Forest.holds_behind behind before below, Forest.proper_behind behind before valid.proper.2,
    ((valid.sound.drain ready).enter stands).pass behind (by simp only; omega), turns⟩, ?_⟩
  simp only [Turn.finish]
  cases rule with
  | sequence =>
    rw [Tree.interpret]
    exact (Forest.sequence_behind behind before scene index _).trans (turns.inTurn_eq ⟨index, _⟩ _)
  | dynamicPriority =>
    simp only [Scene.entrance, Forest.behind_reached (Nat.le_refl _)] at turns
    rw [Tree.interpret, ← turns.dynamicPriority_eq ⟨index, _⟩ _]
  | concurrent =>
    simp only [Scene.entrance, Forest.behind_reached (Nat.le_refl _)] at turns
    rw [Tree.interpret]
    exact turns.concurrent_eq ⟨index, index + 1 + Forest.size children⟩
      ((course.drain scene).enter index) []

/-- What holds of the turns of actions, and of a decider if it holds of all smaller turns, holds of
all turns. -/
theorem induction {motive : Turn β → Prop}
    (action : ∀ {leaf index course}, Turn.Valid scene ⟨.action leaf, index, course⟩ →
      motive ⟨.action leaf, index, course⟩)
    (decider : ∀ {rule children index course},
      Turn.Valid scene ⟨.decider rule children, index, course⟩ →
      (∀ turn : Turn β, turn.Valid scene → turn.Within ⟨index, index + 1 + Forest.size children⟩ →
        motive turn) → motive ⟨.decider rule children, index, course⟩)
    {turn : Turn β} (valid : turn.Valid scene) : motive turn := by
  obtain ⟨tree, index, course⟩ := turn
  induction tree using Tree.size_induction generalizing index course with
  | step tree ih =>
    cases tree with
    | action leaf => exact action valid
    | decider rule children =>
      apply decider valid
      intro turn inner ⟨behind, before⟩
      apply ih turn.tree _ turn.index turn.course inner
      simp only [Turn.stop] at behind before
      rw [Tree.size]
      omega

end Turn.Valid

namespace Scene

/-- The turn of the whole tree, as an update begins. -/
def whole (scene : Scene β) (board : β) : Turn β := ⟨scene.shape.tree, 0, scene.opening board⟩

theorem whole_valid (scene : Scene β) (board : β) : (scene.whole board).Valid scene :=
  ⟨scene.shape.holds_tree, scene.shape.proper_tree, .opening scene board⟩

@[simp] theorem stop_whole (scene : Scene β) (board : β) :
    (scene.whole board).stop = scene.shape.size := by
  rw [Turn.stop, whole, Nat.zero_add, Shape.size_tree]

/-- An update ends with a drain of what the turn of the whole tree has given up. -/
theorem update_eq (scene : Scene β) (board : β) : scene.update board =
    ((scene.whole board).status scene, ((scene.whole board).after scene).drain scene) :=
  rfl

end Scene

end BehaviorTree
