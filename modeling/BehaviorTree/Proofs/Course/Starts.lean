import BehaviorTree.Proofs.Course.Tour

namespace BehaviorTree
open Course
variable {β : Type} {scene : Scene β}

/-- In a story a sequence goes on at once to a child, and no node between the two is visited. -/
def StartsAt (story : List Happening) (sequence child : Nat) : Prop :=
  [.entered sequence, .entered child] <:+: story ∧
    ∀ index, sequence < index → index < child → .entered index ∉ story

/-- In a story that enters nodes in ascending order, no node is entered between two that are entered
one after the other. -/
theorem StartsAt.of_infix {story : List Happening} {sequence child : Nat}
    (ascending : (story.filterMap Happening.entry?).Pairwise (· < ·))
    (adjacent : [.entered sequence, .entered child] <:+: story) :
    StartsAt story sequence child := by
  refine ⟨adjacent, fun index behind before member => ?_⟩
  obtain ⟨front, back, split⟩ := adjacent.filterMap Happening.entry?
  rw [← Happening.mem_filterMap_entry?] at member
  rw [← split] at ascending member
  simp only [List.filterMap_cons, List.filterMap_nil, Happening.entry?, List.append_assoc,
    List.cons_append, List.nil_append, List.pairwise_append, List.pairwise_cons] at ascending
  simp only [List.filterMap_cons, List.filterMap_nil, Happening.entry?, List.append_assoc,
    List.cons_append, List.nil_append, List.mem_append, List.mem_cons] at member
  obtain ⟨-, ⟨-, later, -⟩, earlier⟩ := ascending
  rcases member with ahead | rfl | rfl | beyond
  · have := earlier index ahead sequence List.mem_cons_self
    omega
  · exact Nat.lt_irrefl _ behind
  · exact Nat.lt_irrefl _ before
  · have := later index beyond
    omega

/-- The first tree of a forest has the first turn. -/
theorem Turns.head {goesOn : Status → Bool} {index : Nat} {forest : List Tree}
    {course after : Course β} {passed : List (Turn β)} {last : Option (Turn β)}
    (turns : Turns scene goesOn index forest course passed last after) (used : forest ≠ []) :
    ∃ turn rest, passed ++ last.toList = turn :: rest ∧ turn.index = index := by
  cases turns with
  | empty => exact absurd rfl used
  | ends => exact ⟨_, [], rfl, rfl⟩
  | next => exact ⟨_, _, rfl, rfl⟩

/-- A sequence that is visited in a turn goes on to its start. -/
theorem Turn.Valid.starts (ready : scene.Ready) {turn : Turn β} (valid : turn.Valid scene)
    {sequence stop : Nat} (stands : scene.shape.atom? sequence = some (.decider .sequence stop))
    (visited : .entered sequence ∈ turn.tour scene) :
    [.entered sequence, .entered (scene.start sequence stop)] <:+: turn.tour scene := by
  revert visited
  refine Turn.Valid.induction
    (motive := fun turn => .entered sequence ∈ turn.tour scene →
      [.entered sequence, .entered (scene.start sequence stop)] <:+: turn.tour scene)
    (fun {leaf index course} valid visited => ?_)
    (fun {rule children index course} valid smaller visited => ?_) valid
  · obtain rfl : sequence = index := by simpa [Turn.tour, Tree.tour] using visited
    have action := (Shape.holds_cons.mp valid.holds).1
    rw [stands] at action
    cases leaf <;> cases action
  · obtain ⟨passed, last, after, unfolds, -, tour_eq⟩ := valid.tours ready
    rw [tour_eq] at visited ⊢
    by_cases root : sequence = index
    · subst root
      have here := unfolds.stands
      rw [stands] at here
      obtain ⟨rfl, rfl⟩ : rule = .sequence ∧ stop = sequence + 1 + Forest.size children := by
        simpa [eq_comm] using here
      have used : Forest.behind (scene.start sequence (sequence + 1 + Forest.size children))
          (sequence + 1) children ≠ [] := by
        intro none
        have total := unfolds.total
        have before := unfolds.before
        simp only [Scene.entrance, none, Forest.size] at total before
        omega
      obtain ⟨first, rest, split, start_eq⟩ := unfolds.turns.head used
      obtain ⟨more, head⟩ := first.tour_head scene
      rw [split, List.flatMap_cons, head, start_eq]
      exact ⟨[], _, rfl⟩
    · have told : .entered sequence ∈
          (passed ++ last.toList).flatMap fun turn => turn.tour scene := by
        simpa [root] using visited
      obtain ⟨turn, having, within⟩ := List.mem_flatMap.mp told
      obtain ⟨inner, inside⟩ := unfolds.valid_of_mem ready turn having
      have child : turn.tour scene <:+:
          (passed ++ last.toList).flatMap fun turn => turn.tour scene := by
        rw [List.flatMap_def]
        exact List.infix_of_mem_flatten (List.mem_map_of_mem having)
      exact ((smaller turn inner inside within).trans child).trans ⟨[.entered index], _, rfl⟩

/-- The nodes of a tick are visited in ascending order. -/
theorem Reaches.ascending_visited {quiet : Nat → Prop} {board : β} {position : Nat}
    {course : Course β} (reaches : Reaches scene quiet 0 (scene.opening board) position course) :
    course.visited.Pairwise (· < ·) := by
  have both : course.visited.Pairwise (· < ·) ∧ ∀ index ∈ course.visited, index < position := by
    apply reaches.invariant _ ⟨List.Pairwise.nil, fun index member => by cases member⟩
    rintro position course later after move ⟨ascending, passed⟩
    have extended : (course.visited ++ [position]).Pairwise (· < ·) ∧
        ∀ index ∈ course.visited ++ [position], index < position + 1 := by
      refine ⟨List.pairwise_append.mpr ⟨ascending, List.pairwise_singleton _ _, ?_⟩, ?_⟩
      · intro index member other last
        obtain rfl := List.mem_singleton.mp last
        exact passed index member
      · intro index member
        rcases List.mem_append.mp member with earlier | last
        · exact Nat.lt_succ_of_lt (passed index earlier)
        · obtain rfl := List.mem_singleton.mp last
          exact Nat.lt_succ_self _
    have forward {later : Nat} (behind : position ≤ later) : ∀ index ∈ course.visited,
        index < later :=
      fun index member => Nat.lt_of_lt_of_le (passed index member) behind
    cases move with
    | drain =>
      rw [visited_drain]
      exact ⟨ascending, passed⟩
    | enter => exact extended
    | @visit _ _ leaf =>
      obtain ⟨status, added, entry, request, board, seed, -, visits⟩ :=
        course.visit_eq scene position leaf
      rw [visits]
      exact extended
    | pass behind => exact ⟨ascending, forward behind⟩
    | record => exact ⟨ascending, passed⟩
    | abandon behind => exact ⟨ascending, forward behind⟩
    | fail _ behind => exact ⟨ascending, forward behind⟩
  exact both.1

/-- A sequence that an update visits starts at the child that is remembered, or at the first one. -/
theorem Scene.startsAt_update (ready : scene.Ready) {board : β} {quiet : Nat → Prop}
    (reaches : Reaches scene quiet 0 (scene.opening board) scene.shape.size (scene.update board).2)
    {sequence stop : Nat} (stands : scene.shape.atom? sequence = some (.decider .sequence stop))
    (visited : .entered sequence ∈ (scene.whole board).tour scene) :
    StartsAt ((scene.whole board).tour scene) sequence (scene.start sequence stop) := by
  apply StartsAt.of_infix
  · rw [← Scene.visited_update ready]
    exact reaches.ascending_visited
  · exact (scene.whole_valid board).starts ready stands visited

end BehaviorTree
