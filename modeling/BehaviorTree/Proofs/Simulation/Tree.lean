import BehaviorTree.Proofs.Simulation.Notices

namespace BehaviorTree
open Course
variable {β : Type}

/-- Steps one after the other, none of them from a terminal command. -/
inductive Tick.Steps (setting : Setting β) : Nat → Tick β → Tick β → Prop
  | refl (tick : Tick β) : Steps setting 0 tick tick
  | cons {count : Nat} {tick middle after : Tick β}
      (active : tick.machine.command.isTerminal = false)
      (first : tick.step setting = .ok middle) (rest : Steps setting count middle after) :
      Steps setting (count + 1) tick after

namespace Tick.Steps
variable {setting : Setting β} {tick after : Tick β}

/-- Steps to a terminal command are what a run takes, if its budget lasts. -/
theorem run_eq {count budget : Nat} (steps : Steps setting count tick after)
    (terminal : after.machine.command.isTerminal = true) (enough : count ≤ budget) :
    Tick.run setting budget tick = .ok after := by
  induction steps generalizing budget with
  | refl tick =>
    cases budget with
    | zero => rw [run, if_pos terminal]
    | succ budget => rw [run, if_pos terminal]
  | cons active first _ ih =>
    cases budget with
    | zero => omega
    | succ budget =>
      rw [run, if_neg (by rw [active]; exact Bool.false_ne_true), first]
      exact ih terminal (by omega)

/-- No number of steps changes how much the machine can hold. -/
theorem stores {count : Nat} (steps : Steps setting count tick after) :
    tick.machine.Stores after.machine := by
  induction steps with
  | refl tick => exact .refl _
  | cons _ first _ ih => exact (Tick.stores_step _ setting _ first).trans ih

end Tick.Steps

/-- Steps one after the other, in states that keep to a condition up to the last one. -/
inductive Tick.Path (setting : Setting β) (condition : Tick β → Prop) : Nat → Tick β → Tick β → Prop
  | refl (tick : Tick β) : Path setting condition 0 tick tick
  | cons {count : Nat} {tick middle after : Tick β} (here : condition tick)
      (active : tick.machine.command.isTerminal = false)
      (first : tick.step setting = .ok middle) (rest : Path setting condition count middle after) :
      Path setting condition (count + 1) tick after

namespace Tick.Path
variable {setting : Setting β} {condition : Tick β → Prop} {tick middle after : Tick β}

theorem single (here : condition tick) (active : tick.machine.command.isTerminal = false)
    (first : tick.step setting = .ok after) : Path setting condition 1 tick after :=
  .cons here active first (.refl after)

theorem trans {first second : Nat} (before : Path setting condition first tick middle)
    (behind : Path setting condition second middle after) :
    Path setting condition (first + second) tick after := by
  induction before with
  | refl => rwa [Nat.zero_add]
  | cons here active step _ ih =>
    rw [Nat.add_right_comm]
    exact .cons here active step (ih behind)

theorem mono {weaker : Tick β → Prop} {count : Nat} (path : Path setting condition count tick after)
    (implies : ∀ tick, condition tick → weaker tick) : Path setting weaker count tick after := by
  induction path with
  | refl tick => exact .refl tick
  | cons here active first _ ih => exact .cons (implies _ here) active first ih

theorem steps {count : Nat} (path : Path setting condition count tick after) :
    Steps setting count tick after := by
  induction path with
  | refl tick => exact .refl tick
  | cons _ active first _ ih => exact .cons active first ih

/-- Steps are a path on which nothing is asked of the states. -/
theorem of_steps {count : Nat} (steps : Steps setting count tick after) :
    Path setting (fun _ => True) count tick after := by
  induction steps with
  | refl tick => exact .refl tick
  | cons active first _ ih => exact .cons trivial active first ih

/-- Steps are determined: a path to a terminal command goes on from wherever steps have led. -/
theorem rest {count taken : Nat} (path : Path setting condition count tick after)
    (terminal : after.machine.command.isTerminal = true) (steps : Steps setting taken tick middle) :
    ∃ left, Path setting condition left middle after ∧ taken + left = count := by
  induction steps generalizing count with
  | refl tick => exact ⟨count, path, Nat.zero_add count⟩
  | cons active first _ ih =>
    cases path with
    | refl =>
      rw [terminal] at active
      cases active
    | cons _ _ same path =>
      obtain rfl := Except.ok.inj (first.symm.trans same)
      obtain ⟨left, path, total⟩ := ih path
      exact ⟨left, path, by omega⟩

/-- Paths that go on for as long as a condition holds lead to the same state. -/
theorem end_eq {other : Tick β} {first second : Nat}
    (path : Path setting condition first tick after)
    (ends : ¬condition after) (another : Path setting condition second tick other)
    (stops : ¬condition other) : after = other := by
  induction path generalizing second with
  | refl tick =>
    cases another with
    | refl => rfl
    | cons here => exact absurd here ends
  | cons here active step _ ih =>
    cases another with
    | refl => exact absurd here stops
    | cons _ _ same another =>
      obtain rfl := Except.ok.inj (step.symm.trans same)
      exact ih ends another

/-- Steps that lead to the clean-up have not come by it before. -/
theorem of_steps_cleanup {count : Nat} (steps : Steps setting count tick after)
    (cleanup : after.machine.command = .cleanup) :
    Path setting (fun tick => tick.machine.command ≠ .cleanup) count tick after := by
  induction steps with
  | refl tick => exact .refl tick
  | @cons count tick middle after active first rest ih =>
    refine .cons (fun here => ?_) active first (ih cleanup)
    have done := tick.command_step_cleanup setting here middle first
    cases rest with
    | refl =>
      rw [done] at cleanup
      cases cleanup
    | cons active =>
      rw [done] at active
      cases active

end Tick.Path

variable {scene : Scene β} {capacities : Capacities} {earlier : List Call}

/-- What is to be done once a tree has been left. -/
def Tree.exit (outer : List Frame) : Tree → Command
  | .action _ => .resume
  | .decider _ _ => .afterLeave outer

theorem Tree.exit_inner (tree : Tree) (outer : List Frame) (frame : Frame) :
    tree.exit (outer ++ [frame]) = .resume := by
  cases tree with
  | action => rfl
  | decider => simp [exit, Command.afterLeave]

/-- The machine is about to visit a tree, in the open deciders around it, and stands where the
course of the tree stands. -/
structure Poised (scene : Scene β) (capacities : Capacities) (earlier : List Call) (tick : Tick β)
    (turn : Turn β) (outer : List Frame) : Prop where
  valid : turn.Valid scene
  deep : outer.length + turn.tree.depth ≤ capacities.frames
  mirror : Mirror scene capacities earlier turn.index tick (turn.course.drain scene)
  standing : Stands tick .invoke turn.index outer

/-- Within a number of open deciders, only trees of the shape are visited. -/
def Visiting (scene : Scene β) (capacities : Capacities) (earlier : List Call) (depth : Nat)
    (tick : Tick β) : Prop :=
  depth ≤ tick.machine.frames.count ∧
    (tick.machine.command = .invoke → ∃ turn outer, Poised scene capacities earlier tick turn outer)

theorem Visiting.mono {depth smaller : Nat} {tick : Tick β}
    (visiting : Visiting scene capacities earlier depth tick) (less : smaller ≤ depth) :
    Visiting scene capacities earlier smaller tick :=
  ⟨Nat.le_trans less visiting.1, visiting.2⟩

theorem Stands.count_eq {tick : Tick β} {command : Command} {cursor : Nat} {frames : List Frame}
    (standing : Stands tick command cursor frames) : tick.machine.frames.count = frames.length := by
  rw [← Buffer.length_contents, standing.frames]

/-- A tree has been visited: the first step has entered it, within it the deciders around it have
stayed open, and the root has delivered. -/
structure Delivered (scene : Scene β) (capacities : Capacities) (earlier : List Call)
    (tick : Tick β) (turn : Turn β) (outer : List Frame) (count : Nat) (entered after : Tick β) :
    Prop where
  first : tick.step scene.toSetting = .ok entered
  path : Tick.Path scene.toSetting (Visiting scene capacities earlier (outer.length + 1)) count
    entered after
  standing : Stands after (turn.tree.exit outer) turn.stop outer
  status : after.machine.status = turn.status scene
  mirror : Mirror scene capacities earlier turn.stop after (turn.after scene)
  story : after.story = tick.story ++ turn.tour scene
  shows : Tick.Shows scene.toSetting
    ((turn.passages scene outer.length).flatMap Passage.notices) tick after

/-- The machine goes through a tree as the interpretation does. -/
def Tree.Simulates (scene : Scene β) (capacities : Capacities) (earlier : List Call)
    (tree : Tree) : Prop :=
  ∀ {index : Nat} {course : Course β} {tick : Tick β} {outer : List Frame},
    Poised scene capacities earlier tick ⟨tree, index, course⟩ outer →
      ∃ count entered after, count + 2 ≤ 2 * tree.size ∧
        Delivered scene capacities earlier tick ⟨tree, index, course⟩ outer count entered after

namespace Forest

/-- The machine goes through each tree up to a size as the interpretation does. -/
def AllSimulate (scene : Scene β) (capacities : Capacities) (earlier : List Call) (size : Nat) :
    Prop :=
  ∀ tree : Tree, tree.size ≤ size → tree.Simulates scene capacities earlier

theorem AllSimulate.mono {smaller larger : Nat}
    (trees : AllSimulate scene capacities earlier larger) (less : smaller ≤ larger) :
    AllSimulate scene capacities earlier smaller :=
  fun tree bounded => trees tree (Nat.le_trans bounded less)

/-- The machine goes through the children of a decider and leaves it, with a status and a course.
What it shows is counted from an earlier state on. -/
def Finishes (scene : Scene β) (capacities : Capacities) (earlier : List Call) (bound stop : Nat)
    (outer : List Frame) (tick : Tick β) (finish : Status × Course β) (told : List Happening)
    (origin : Tick β) (shown : List Notice) : Prop :=
  ∃ count after, count ≤ bound ∧
    Tick.Path scene.toSetting (Visiting scene capacities earlier (outer.length + 1)) count tick
      after ∧
    Leaves scene capacities earlier stop outer finish.1 finish.2 after ∧
    after.story = tick.story ++ told ∧ Tick.Shows scene.toSetting shown origin after

theorem Finishes.mono {bound larger stop : Nat} {outer : List Frame} {tick origin : Tick β}
    {finish : Status × Course β} {told : List Happening} {shown : List Notice}
    (finishes : Finishes scene capacities earlier bound stop outer tick finish told origin shown)
    (enough : bound ≤ larger) :
    Finishes scene capacities earlier larger stop outer tick finish told origin shown := by
  obtain ⟨count, after, count_le, path, leaves, story, shows⟩ := finishes
  exact ⟨count, after, Nat.le_trans count_le enough, path, leaves, story, shows⟩

/-- A child has been visited in a number of steps less than a bound, and delivers to the innermost
open decider. -/
structure Visited (scene : Scene β) (capacities : Capacities) (earlier : List Call)
    (bound position : Nat) (frames : List Frame) (tick : Tick β) (left : Status × Course β)
    (told : List Happening) (origin : Tick β) (shown : List Notice) (visited : Tick β) : Prop where
  path : ∃ count, count + 1 ≤ bound ∧
    Tick.Path scene.toSetting (Visiting scene capacities earlier frames.length) count tick visited
  standing : Stands visited .resume position frames
  status : visited.machine.status = left.1
  mirror : Mirror scene capacities earlier position visited left.2
  story : visited.story = tick.story ++ told
  shows : Tick.Shows scene.toSetting shown origin visited

/-- The first tree of a forest is visited. -/
theorem AllSimulate.visited {tree : Tree} {rest : List Tree} {index : Nat} {outer : List Frame}
    {frame : Frame} {course : Course β} {tick origin : Tick β} {shown : List Notice}
    (trees : AllSimulate scene capacities earlier (size (tree :: rest)))
    (holds : scene.shape.Holds index (tree.listing index)) (proper : tree.Proper)
    (deep : outer.length + 1 + tree.depth ≤ capacities.frames) (sound : Sound scene index course)
    (mirror : Mirror scene capacities earlier index tick (course.drain scene))
    (standing : Stands tick .invoke index (outer ++ [frame]))
    (shows : Tick.Shows scene.toSetting shown origin tick) :
    ∃ visited, Visited scene capacities earlier (2 * tree.size) (index + tree.size)
      (outer ++ [frame]) tick (tree.interpret scene index course) (tree.tour scene index course)
      origin (shown ++
        (tree.passages scene (outer.length + 1) index course).flatMap Passage.notices)
      visited := by
  have deep : (outer ++ [frame]).length + tree.depth ≤ capacities.frames := by
    rw [List.length_append, List.length_singleton]
    exact deep
  have poised : Poised scene capacities earlier tick ⟨tree, index, course⟩ (outer ++ [frame]) :=
    ⟨⟨holds, proper, sound⟩, deep, mirror, standing⟩
  obtain ⟨count, entered, visited, count_le, delivered⟩ :=
    trees tree (size_le_first tree rest) poised
  have visited_standing := delivered.standing
  rw [tree.exit_inner] at visited_standing
  have path := delivered.path.mono fun _ visiting => visiting.mono (Nat.le_succ _)
  have visited_shows := delivered.shows
  rw [List.length_append, List.length_singleton] at visited_shows
  exact ⟨visited, ⟨count + 1, count_le, .cons ⟨Nat.le_of_eq standing.count_eq.symm, fun _ =>
    ⟨_, _, poised⟩⟩ (by rw [standing.command]; rfl) delivered.first path⟩, visited_standing,
    delivered.status, delivered.mirror, delivered.story, shows.trans visited_shows⟩

namespace Visited
variable {bound position stop : Nat} {outer frames : List Frame} {frame : Frame}
  {tick visited origin : Tick β} {left finish : Status × Course β} {told : List Happening}
  {shown : List Notice}

theorem isTerminal_eq (visit : Visited scene capacities earlier bound position frames tick left
    told origin shown visited) : visited.machine.command.isTerminal = false := by
  rw [visit.standing.command]
  rfl

/-- On its way up, the machine visits nothing. -/
theorem visiting (visit : Visited scene capacities earlier bound position frames tick left told
    origin shown visited) : Visiting scene capacities earlier frames.length visited := by
  refine ⟨Nat.le_of_eq visit.standing.count_eq.symm, fun invoke => ?_⟩
  rw [visit.standing.command] at invoke
  cases invoke

/-- Where the decider is left at once, it is finished. -/
theorem finishes (visit : Visited scene capacities earlier bound position (outer ++ [frame]) tick
    left told origin shown visited) {after : Tick β}
    (step : visited.step scene.toSetting = .ok after)
    (leaves : Leaves scene capacities earlier stop outer finish.1 finish.2 after) :
    Finishes scene capacities earlier bound stop outer tick finish
      (told ++ [.left frame.atom finish.1]) origin
      (shown ++ [.up frame.atom (outer.length + 1)] ++ [.left frame.atom outer.length]) := by
  obtain ⟨count, count_le, path⟩ := visit.path
  have visiting := visit.visiting
  rw [List.length_append, List.length_singleton] at path visiting
  have top := Buffer.top?_last visit.standing.frames
  have notInvoke : after.machine.command ≠ .invoke := by
    rw [leaves.1.command, Command.afterLeave]
    split <;> exact Command.noConfusion
  have story := Tick.story_resume step visit.standing.command top
  have shows := Tick.shows_leave step visit.standing.command top notInvoke
  rw [visit.standing.count_eq, leaves.1.count_eq, List.length_append, List.length_singleton]
    at shows
  refine ⟨count + 1, after, count_le, path.trans (.single visiting visit.isTerminal_eq step),
    leaves, ?_, ?_⟩
  · rw [story, if_neg notInvoke, leaves.2.1, visit.story, List.append_assoc]
  · rw [List.append_assoc]
    exact visit.shows.trans shows

/-- A decider that has noted the status without a further effect is finished with its other
children, or with what it noted if there are none. -/
theorem goes_on (visit : Visited scene capacities earlier bound position (outer ++ [frame]) tick
    left told origin shown visited) (ready : scene.Ready)
    (covers : capacities.covers scene.shape.needs = true)
    (sound : Sound scene position left.2) {rest : List Tree} {after : Frame}
    {others : List Happening} {more_shown : List Notice}
    (absorbed : visited.machine.absorb frame = .ok (after, visited.machine))
    (end_eq : position + size rest = after.stop)
    (last : rest = [] → finish = (after.result left.1, left.2) ∧ others = [] ∧ more_shown = [])
    (next : rest ≠ [] → position < after.stop → ∀ {going : Tick β},
      Mirror scene capacities earlier position going (left.2.drain scene) →
      Stands going .invoke position (outer ++ [after]) →
      Tick.Shows scene.toSetting (shown ++ [.up frame.atom (outer.length + 1)] ++
        (⟨.down frame.atom (outer.length + 1), left.2.due scene⟩ : Passage).notices) origin going →
      Finishes scene capacities earlier (2 * size rest) after.stop outer going finish
        (others ++ [.left frame.atom finish.1]) origin
        (shown ++ [.up frame.atom (outer.length + 1)] ++ more_shown ++
          [.left frame.atom outer.length])) :
    Finishes scene capacities earlier (bound + 2 * size rest) after.stop outer tick finish
      (told ++ others ++ [.left frame.atom finish.1]) origin
      (shown ++ [.up frame.atom (outer.length + 1)] ++ more_shown ++
        [.left frame.atom outer.length]) := by
  by_cases none : rest = []
  · rw [none, size, Nat.add_zero] at end_eq
    obtain ⟨done, step, leaves⟩ :=
      visit.mirror.resume_last visit.standing absorbed (Nat.le_of_eq end_eq.symm)
    obtain ⟨finish_eq, none_told, none_shown⟩ := last none
    rw [visit.status, end_eq] at leaves
    rw [finish_eq, none_told, none_shown, List.append_nil, List.append_nil]
    exact (visit.finishes step leaves).mono (Nat.le_add_right _ _)
  · have used := size_pos none
    have more : position < after.stop := by omega
    obtain ⟨going, step, standing, mirror⟩ :=
      visit.mirror.resume_next visit.standing ready covers sound absorbed more
    have passes := visit.mirror.shows_next ready sound visit.standing absorbed more step
    have going_shows := visit.shows.trans passes
    rw [List.append_cons] at going_shows
    obtain ⟨count, count_le, path⟩ := visit.path
    obtain ⟨rest_count, done, rest_le, rest_path, leaves, rest_story, shows⟩ :=
      next none more mirror standing going_shows
    have visiting := visit.visiting
    rw [List.length_append, List.length_singleton] at path visiting
    have story := Tick.story_resume step visit.standing.command
      (Buffer.top?_last visit.standing.frames)
    rw [if_pos standing.command, List.append_nil] at story
    refine ⟨count + (rest_count + 1), done, by omega,
      path.trans (.cons visiting visit.isTerminal_eq step rest_path), leaves, ?_, shows⟩
    rw [rest_story, story, visit.story]
    simp only [List.append_assoc]

/-- A sequence ends with a child that does not succeed, and remembers it if it is active. -/
theorem sequence_ends {decider reached continuationMark launchMark : Nat}
    (visit : Visited scene capacities earlier bound position
      (outer ++ [⟨decider, stop, continuationMark, launchMark, .sequence reached⟩]) tick left
      told origin shown visited) (covers : capacities.covers scene.shape.needs = true)
    (inside : position ≤ stop)
    (unsuccessful : left.1 ≠ .success) (notCanceled : left.1 ≠ .cancel)
    (sound : Sound scene position (left.2.record decider reached)) :
    Finishes scene capacities earlier bound stop outer tick
      (left.1, if left.1.isActive then left.2.record decider reached else left.2)
      (told ++ [.left decider left.1]) origin
      (shown ++ [.up decider (outer.length + 1)] ++ [.left decider outer.length]) := by
  have status := visit.status
  by_cases running : left.1.isActive = true
  · rw [if_pos running]
    have room := Nat.le_trans sound.continuations_le
      ((Capacities.covers_iff _ _).mp covers .continuations)
    obtain ⟨after, step, leaves⟩ :=
      visit.mirror.resume_record visit.standing rfl (by rw [status, running]) inside room
    rw [status] at leaves
    exact visit.finishes step leaves
  · rw [if_neg running]
    have failed : left.1 = .fail := by
      generalize left.1 = delivered at *
      cases delivered with
      | fail => rfl
      | success => exact absurd rfl unsuccessful
      | cancel => exact absurd rfl notCanceled
      | _ => exact absurd rfl running
    rw [failed] at status ⊢
    obtain ⟨after, step, leaves⟩ :=
      visit.mirror.resume_sequence_fail visit.standing rfl status inside
    exact visit.finishes step leaves

end Visited

section
variable (ready : scene.Ready) (covers : capacities.covers scene.shape.needs = true)
include ready covers

theorem finishes_sequence {decider stop index : Nat} {forest : List Tree}
    (stands : scene.shape.atom? decider = some (.decider .sequence stop))
    (behind : decider < index) (end_eq : index + size forest = stop)
    (visitable : max index (scene.start decider stop) < stop)
    (holds : scene.shape.Holds index (listing index forest)) (proper : Proper forest)
    {outer : List Frame} (deep : outer.length + 1 + depth forest ≤ capacities.frames)
    (trees : AllSimulate scene capacities earlier (size forest)) {course : Course β}
    (sound : Sound scene index course)
    (unrecorded : ∀ entry ∈ course.continuations, entry.atom ≠ decider) {tick origin : Tick β}
    {shown : List Notice} {continuationMark launchMark : Nat}
    (mirror : Mirror scene capacities earlier index tick (course.drain scene))
    (standing : Stands tick .invoke (max index (scene.start decider stop))
      (outer ++ [⟨decider, stop, continuationMark, launchMark,
        .sequence (max index (scene.start decider stop))⟩]))
    (shows : Tick.Shows scene.toSetting (shown ++
      (⟨.down decider (outer.length + 1), course.due scene⟩ : Passage).notices) origin tick) :
    Finishes scene capacities earlier (2 * size forest) stop outer tick
      (sequence scene decider (scene.start decider stop) index forest course)
      (Forest.tour scene Rule.sequence.goesOn (max index (scene.start decider stop))
          (Forest.behind (scene.start decider stop) index forest) course ++
        [.left decider
          (sequence scene decider (scene.start decider stop) index forest course).1])
      origin
      (shown ++ Forest.notices scene Rule.sequence.goesOn decider (outer.length + 1)
          (max index (scene.start decider stop))
          (Forest.behind (scene.start decider stop) index forest) course ++
        [.left decider outer.length]) := by
  generalize scene.start decider stop = start at visitable standing
  induction index, forest using sequence_induction start generalizing course tick shown with
  | nil index =>
    rw [size] at end_eq
    omega
  | skip index tree rest skipped ih =>
    rw [size, ← Nat.add_assoc] at end_eq
    rw [depth] at deep
    obtain ⟨first, second⟩ := Shape.holds_forest_cons.mp holds
    have same : max index start = max (index + tree.size) start := by omega
    rw [same] at visitable standing
    have forward := Nat.le_add_right index tree.size
    rw [sequence_skip scene skipped, behind_skip skipped, same]
    apply (ih (by omega) end_eq second proper.2 (by omega) (trees.mono (size_le_rest _ _))
      (sound.pass forward first.le_size) unrecorded (mirror.later forward) shows visitable
      standing).mono
    rw [size]
    omega
  | opened index rule children rest before within ih =>
    have total : index + 1 + size (children ++ rest) = stop := by
      rw [← end_eq, size_append, size, Tree.size]
      omega
    have inside : index + 1 ≤ scene.shape.size := by
      have := (Shape.holds_forest_cons.mp holds).1.le_size
      rw [Tree.size] at this
      omega
    have deep_inside : outer.length + 1 + depth (children ++ rest) ≤ capacities.frames := by
      rw [depth, Tree.depth] at deep
      rw [depth_append]
      omega
    have proper_inside : Proper (children ++ rest) :=
      (proper_append children rest).mpr ⟨proper.1.2, proper.2⟩
    have same : max index start = max (index + 1) start := by omega
    rw [same] at visitable standing
    rw [sequence_open scene before within, behind_open before within, same]
    apply (ih (by omega) total (Shape.holds_forest_open holds) proper_inside deep_inside
      (trees.mono (size_le_opened rule children rest)) (sound.pass (Nat.le_succ index) inside)
      unrecorded (mirror.later (Nat.le_succ index)) shows visitable standing).mono
    rw [size_append, size, Tree.size]
    omega
  | visit index tree rest reached ih =>
    rw [size, ← Nat.add_assoc] at end_eq
    rw [depth] at deep
    obtain ⟨first, second⟩ := Shape.holds_forest_cons.mp holds
    have at_index : max index start = index := Nat.max_eq_left reached
    rw [at_index] at standing
    obtain ⟨visited, visit⟩ := trees.visited first proper.1 (by omega) sound mirror standing
      shows
    have visited_sound := tree.sound_interpret ready first sound
    have notCanceled := tree.interpret_ne_cancel scene index course
    have unrecorded_after := (tree.grows scene index course).unrecorded behind unrecorded
    have enough : 2 * tree.size + 2 * size rest ≤ 2 * size (tree :: rest) := by
      rw [size]
      omega
    have inside : index + tree.size ≤ stop := by omega
    rw [sequence_visit scene reached, at_index, behind_reached reached, tour_cons,
      append_notices_cons]
    generalize tree.interpret scene index course = left at *
    by_cases success : left.1 = .success
    · have status := visit.status.trans success
      have on : Rule.sequence.goesOn left.1 = true := decide_eq_true success
      rw [if_pos success, if_pos on, if_pos on]
      have absorbed : visited.machine.absorb
          ⟨decider, stop, continuationMark, launchMark, .sequence index⟩ =
          .ok (⟨decider, stop, continuationMark, launchMark, .sequence (index + tree.size)⟩,
            visited.machine) := by
        simp only [Machine.absorb, Machine.absorbSequence, status, visit.standing.cursor]
      apply (visit.goes_on ready covers visited_sound absorbed end_eq _ _).mono enough
      · rintro rfl
        rw [sequence_nil, Frame.result, success, tour, notices_nil]
        exact ⟨rfl, rfl, rfl⟩
      · intro used more going going_mirror going_standing going_shows
        have at_next : max (index + tree.size) start = index + tree.size := by omega
        rw [at_next, behind_reached (by omega)] at ih
        exact ih (by omega) end_eq second proper.2 (by omega) (trees.mono (size_le_rest _ _))
          visited_sound unrecorded_after going_mirror going_shows more going_standing
    · have ends : ¬Rule.sequence.goesOn left.1 = true := fun on => success (of_decide_eq_true on)
      rw [if_neg success, if_neg ends, if_neg ends, List.append_nil, List.append_nil]
      have recorded : Sound scene (index + tree.size) (left.2.record decider index) :=
        visited_sound.record stands (by omega) unrecorded_after
      exact (visit.sequence_ends covers inside success notCanceled recorded).mono (by omega)

theorem finishes_dynamicPriority {decider stop index : Nat} {forest : List Tree}
    (end_eq : index + size forest = stop) (nonempty : forest ≠ [])
    (holds : scene.shape.Holds index (listing index forest)) (proper : Proper forest)
    {outer : List Frame} (deep : outer.length + 1 + depth forest ≤ capacities.frames)
    (trees : AllSimulate scene capacities earlier (size forest)) {course : Course β}
    (sound : Sound scene index course) {tick origin : Tick β} {shown : List Notice}
    {continuationMark launchMark : Nat}
    (mirror : Mirror scene capacities earlier index tick (course.drain scene))
    (standing : Stands tick .invoke index
      (outer ++ [⟨decider, stop, continuationMark, launchMark, .dynamicPriority⟩]))
    (shows : Tick.Shows scene.toSetting (shown ++
      (⟨.down decider (outer.length + 1), course.due scene⟩ : Passage).notices) origin tick) :
    Finishes scene capacities earlier (2 * size forest) stop outer tick
      (dynamicPriority scene stop index forest course)
      (Forest.tour scene Rule.dynamicPriority.goesOn index forest course ++
        [.left decider (dynamicPriority scene stop index forest course).1])
      origin
      (shown ++ Forest.notices scene Rule.dynamicPriority.goesOn decider (outer.length + 1) index
          forest course ++ [.left decider outer.length]) := by
  induction forest generalizing index course tick shown with
  | nil => exact absurd rfl nonempty
  | cons tree rest ih =>
    rw [size, ← Nat.add_assoc] at end_eq
    rw [depth] at deep
    obtain ⟨first, second⟩ := Shape.holds_forest_cons.mp holds
    obtain ⟨visited, visit⟩ := trees.visited first proper.1 (by omega) sound mirror standing
      shows
    have visited_sound := tree.sound_interpret ready first sound
    have notCanceled := tree.interpret_ne_cancel scene index course
    have enough : 2 * tree.size + 2 * size rest ≤ 2 * size (tree :: rest) := by
      rw [size]
      omega
    rw [dynamicPriority_cons, tour_cons, append_notices_cons]
    generalize tree.interpret scene index course = left at *
    have status := visit.status
    by_cases failed : left.1 = .fail
    · rw [failed] at status
      have on : Rule.dynamicPriority.goesOn left.1 = true := decide_eq_true failed
      rw [if_pos failed, if_pos on, if_pos on]
      have absorbed : visited.machine.absorb
          ⟨decider, stop, continuationMark, launchMark, .dynamicPriority⟩ =
          .ok (⟨decider, stop, continuationMark, launchMark, .dynamicPriority⟩,
            visited.machine) := by
        simp only [Machine.absorb, Machine.absorbDynamicPriority, status]
      apply (visit.goes_on ready covers visited_sound absorbed end_eq _ _).mono enough
      · rintro rfl
        rw [dynamicPriority, Frame.result, failed, tour, notices_nil]
        exact ⟨rfl, rfl, rfl⟩
      · intro used more going going_mirror going_standing going_shows
        exact ih end_eq used second proper.2 (by omega) (trees.mono (size_le_rest _ _))
          visited_sound going_mirror going_standing going_shows
    · have ends : ¬Rule.dynamicPriority.goesOn left.1 = true :=
        fun on => failed (of_decide_eq_true on)
      rw [if_neg failed, if_neg ends, if_neg ends, List.append_nil, List.append_nil]
      have inside : index + tree.size ≤ stop := by omega
      obtain ⟨after, step, leaves⟩ := visit.mirror.resume_abandon visit.standing rfl
        (by rw [status]; exact failed) (by rw [status]; exact notCanceled) inside
      rw [status] at leaves
      exact (visit.finishes step leaves).mono (by omega)

theorem finishes_concurrent {span : Span} {aggregate : Status} {index : Nat} {forest : List Tree}
    (behind : span.start < index) (end_eq : index + size forest = span.stop)
    (nonempty : forest ≠ []) (holds : scene.shape.Holds index (listing index forest))
    (proper : Proper forest) {outer : List Frame}
    (deep : outer.length + 1 + depth forest ≤ capacities.frames)
    (trees : AllSimulate scene capacities earlier (size forest)) {entered course : Course β}
    (grown : Grows (span.start + 1) entered course) (sound : Sound scene index course)
    {tick origin : Tick β} {shown : List Notice}
    (mirror : Mirror scene capacities earlier index tick (course.drain scene))
    (standing : Stands tick .invoke index
      (outer ++ [⟨span.start, span.stop, entered.continuations.length, entered.launches.length,
        .concurrent aggregate⟩]))
    (shows : Tick.Shows scene.toSetting (shown ++
      (⟨.down span.start (outer.length + 1), course.due scene⟩ : Passage).notices) origin tick) :
    Finishes scene capacities earlier (2 * size forest) span.stop outer tick
      (concurrent scene span entered aggregate index forest course)
      (Forest.tour scene Rule.concurrent.goesOn index forest course ++
        [.left span.start (concurrent scene span entered aggregate index forest course).1])
      origin
      (shown ++ Forest.notices scene Rule.concurrent.goesOn span.start (outer.length + 1) index
          forest course ++ [.left span.start outer.length]) := by
  induction forest generalizing index course tick aggregate shown with
  | nil => exact absurd rfl nonempty
  | cons tree rest ih =>
    rw [size, ← Nat.add_assoc] at end_eq
    rw [depth] at deep
    obtain ⟨first, second⟩ := Shape.holds_forest_cons.mp holds
    obtain ⟨visited, visit⟩ := trees.visited first proper.1 (by omega) sound mirror standing
      shows
    have visited_sound := tree.sound_interpret ready first sound
    have visited_grown := grown.trans ((tree.grows scene index course).mono behind)
    have notCanceled := tree.interpret_ne_cancel scene index course
    have enough : 2 * tree.size + 2 * size rest ≤ 2 * size (tree :: rest) := by
      rw [size]
      omega
    rw [concurrent_cons, tour_cons, append_notices_cons]
    generalize tree.interpret scene index course = left at *
    have status := visit.status
    by_cases failed : left.1 = .fail
    · have ends : ¬Rule.concurrent.goesOn left.1 = true :=
        fun on => (of_decide_eq_true on) failed
      rw [if_pos failed, if_neg ends, if_neg ends, List.append_nil, List.append_nil]
      rw [failed] at status
      have inside : index + tree.size ≤ span.stop := by omega
      obtain ⟨after, step, leaves⟩ := visit.mirror.resume_takeBack visit.standing rfl status
        inside visited_grown rfl rfl
      exact (visit.finishes step leaves).mono (by omega)
    · have on : Rule.concurrent.goesOn left.1 = true := decide_eq_true failed
      rw [if_neg failed, if_pos on, if_pos on]
      have absorbed : visited.machine.absorb
          ⟨span.start, span.stop, entered.continuations.length, entered.launches.length,
            .concurrent aggregate⟩ =
          .ok (⟨span.start, span.stop, entered.continuations.length, entered.launches.length,
            .concurrent (if left.1.isActive then .running else aggregate)⟩, visited.machine) := by
        simp only [Machine.absorb, status]
        generalize left.1 = delivered at *
        cases delivered with
        | fail => exact absurd rfl failed
        | cancel => exact absurd rfl notCanceled
        | _ => rfl
      apply (visit.goes_on ready covers visited_sound absorbed end_eq _ _).mono enough
      · rintro rfl
        simp only [concurrent, Frame.result, if_neg failed, tour, notices_nil, and_self]
      · intro used more going going_mirror going_standing going_shows
        exact ih (by omega) end_eq used second proper.2 (by omega)
          (trees.mono (size_le_rest _ _)) visited_grown visited_sound going_mirror going_standing
          going_shows

end

end Forest

namespace Tree

/-- The machine visits an action in one step. -/
theorem simulates_action (ready : scene.Ready)
    (covers : capacities.covers scene.shape.needs = true) (leaf : Leaf) :
    (Tree.action leaf).Simulates scene capacities earlier := by
  intro index course tick outer poised
  obtain ⟨⟨holds, -, sound⟩, -, mirror, standing⟩ := poised
  have stands := (Shape.holds_cons.mp holds).1
  obtain ⟨after, step, after_standing, status, after_mirror⟩ := mirror.step_action ready covers
    (sound.drain ready) (by simp) stands standing
  have here : scene.shape.atom? tick.machine.cursor = some leaf.atom := by
    rw [standing.cursor]
    exact stands
  have story := Tick.story_visit step standing.command here
  have shows := Tick.shows_visit step standing.command here
  refine ⟨0, after, after, Nat.le_refl _, step, .refl after, after_standing, ?_, ?_, ?_, ?_⟩
  · rw [status, Turn.status, Turn.finish, interpret]
  · rw [Turn.after, Turn.finish, interpret]
    exact after_mirror
  · rw [story, standing.cursor, status, Turn.tour, tour, interpret]
  · rw [standing.cursor, standing.count_eq] at shows
    rw [Turn.passages, passages]
    exact shows

variable {rule : Rule} {children : List Tree}

/-- In a decider that it has entered, the machine goes through the children as the rule of the
decider does. -/
theorem finishes_children (ready : scene.Ready)
    (covers : capacities.covers scene.shape.needs = true) {index : Nat} {course : Course β}
    {tick opened : Tick β} {outer : List Frame}
    (holds : scene.shape.Holds index ((Tree.decider rule children).listing index))
    (proper : (Tree.decider rule children).Proper)
    (deep : outer.length + 1 + Forest.depth children ≤ capacities.frames)
    (trees : Forest.AllSimulate scene capacities earlier (Forest.size children))
    (drained : Sound scene index (course.drain scene))
    (mirror : Mirror scene capacities earlier (index + 1) opened
      (((course.drain scene).enter index).drain scene))
    (standing : Stands opened .invoke
      (scene.entrance index (index + 1 + Forest.size children) rule)
      (outer ++ [(course.drain scene).frame scene index (index + 1 + Forest.size children) rule]))
    (shows : Tick.Shows scene.toSetting ([.entered index outer.length] ++
      (⟨.down index (outer.length + 1), ((course.drain scene).enter index).due scene⟩ :
        Passage).notices) tick opened) :
    Forest.Finishes scene capacities earlier (2 * Forest.size children)
      (index + 1 + Forest.size children) outer opened
      ((Tree.decider rule children).interpret scene index course)
      (Forest.tour scene rule.goesOn
          (scene.entrance index (index + 1 + Forest.size children) rule)
          (Forest.behind (scene.entrance index (index + 1 + Forest.size children) rule)
            (index + 1) children) ((course.drain scene).enter index) ++
        [.left index ((Tree.decider rule children).interpret scene index course).1])
      tick
      ([.entered index outer.length] ++ Forest.notices scene rule.goesOn index (outer.length + 1)
          (scene.entrance index (index + 1 + Forest.size children) rule)
          (Forest.behind (scene.entrance index (index + 1 + Forest.size children) rule)
            (index + 1) children) ((course.drain scene).enter index) ++
        [.left index outer.length]) := by
  obtain ⟨stands, below⟩ := Shape.holds_cons.mp holds
  have used := Forest.size_pos proper.1
  have sound := drained.enter stands
  cases rule with
  | sequence =>
    have after := scene.lt_start index (index + 1 + Forest.size children)
    have before := scene.start_lt (by omega : index + 1 < index + 1 + Forest.size children)
    have entrance : max (index + 1) (scene.start index (index + 1 + Forest.size children)) =
        scene.start index (index + 1 + Forest.size children) := Nat.max_eq_right after
    simp only [Scene.entrance, Course.frame] at standing ⊢
    rw [← entrance] at standing
    have finishes := Forest.finishes_sequence ready covers stands (Nat.lt_succ_self index) rfl
      (by rw [entrance]; exact before) below proper.2 deep trees sound
      (drained.unrecorded (Nat.le_refl index)) mirror standing shows
    rw [entrance] at finishes
    rw [interpret]
    exact finishes
  | dynamicPriority =>
    rw [interpret, Scene.entrance, Forest.behind_reached (Nat.le_refl _)]
    exact Forest.finishes_dynamicPriority ready covers rfl proper.1 below proper.2 deep trees
      sound mirror standing shows
  | concurrent =>
    rw [interpret, Scene.entrance, Forest.behind_reached (Nat.le_refl _)]
    have behind : (Span.mk index (index + 1 + Forest.size children)).start < index + 1 :=
      Nat.lt_succ_self index
    exact Forest.finishes_concurrent ready covers behind rfl proper.1 below proper.2 deep trees
      (.refl _ _) sound mirror standing shows

/-- The machine enters a decider in one step and then goes through the children. -/
theorem simulates_decider (ready : scene.Ready)
    (covers : capacities.covers scene.shape.needs = true)
    (trees : Forest.AllSimulate scene capacities earlier (Forest.size children)) :
    (Tree.decider rule children).Simulates scene capacities earlier := by
  intro index course tick outer poised
  obtain ⟨⟨holds, proper, sound⟩, deep, mirror, standing⟩ := poised
  obtain ⟨stands, -⟩ := Shape.holds_cons.mp holds
  have drained := sound.drain ready
  have used := Forest.size_pos proper.1
  have child : index + 1 < index + 1 + Forest.size children := by omega
  simp only [Tree.depth] at deep
  obtain ⟨opened, step, opened_standing, opened_mirror⟩ := mirror.step_decider ready (by omega)
    stands child standing
  have here : scene.shape.atom? tick.machine.cursor =
      some (.decider rule (index + 1 + Forest.size children)) := by
    rw [standing.cursor]
    exact stands
  have entered := Tick.story_enter step standing.command here
  have shows := Tick.shows_enter step standing.command here
    (by rw [opened_standing.command]; exact Command.noConfusion)
  rw [standing.cursor, standing.count_eq, opened_standing.count_eq, List.length_append,
    List.length_singleton] at shows
  have settled : ((course.drain scene).enter index).pending.isEmpty = true := by
    simp [Course.enter]
  have entered_mirror : Mirror scene capacities earlier (index + 1) opened
      (((course.drain scene).enter index).drain scene) := by
    rw [drain_of_isEmpty scene settled]
    exact { opened_mirror with }
  -- Nothing is pending in front of the first child, so nothing is canceled there.
  have nothing : ((course.drain scene).enter index).due scene = [] := if_pos settled
  have entered_shows : Tick.Shows scene.toSetting ([.entered index outer.length] ++
      (⟨.down index (outer.length + 1), ((course.drain scene).enter index).due scene⟩ :
        Passage).notices) tick opened := by
    rw [nothing]
    exact shows
  obtain ⟨count, after, count_le, path, ⟨after_standing, status, after_mirror⟩, story, shows⟩ :=
    finishes_children ready covers holds proper (by omega) trees drained entered_mirror
      opened_standing entered_shows
  have stop_eq : index + (Tree.decider rule children).size =
      index + 1 + Forest.size children := by
    rw [Tree.size, Nat.add_assoc]
  rw [← stop_eq] at after_standing after_mirror
  refine ⟨count, opened, after, ?_, step, path, after_standing, status, after_mirror, ?_, ?_⟩
  · rw [Tree.size]
    omega
  · rw [story, entered, standing.cursor, Turn.tour, tour]
    simp
  · rw [Turn.notices_decider]
    exact shows

/-- The machine goes through every tree as the interpretation does. -/
theorem simulates (ready : scene.Ready) (covers : capacities.covers scene.shape.needs = true)
    (tree : Tree) : tree.Simulates scene capacities earlier := by
  induction tree using Tree.size_induction with
  | step tree ih =>
    cases tree with
    | action leaf => exact simulates_action ready covers leaf
    | decider rule children =>
      refine simulates_decider ready covers fun smaller less => ih smaller ?_
      rw [Tree.size]
      omega

end Tree

end BehaviorTree
