import BehaviorTree.Proofs.Simulation.Finish

namespace BehaviorTree
open Machine Ordered
variable {β : Type} {tick : Tick β}

/-- A prepared traversal comes to its end: within the budget, the machine takes steps until it is
done, and the actor takes over what they leave. -/
def Tick.Completes (tick : Tick β) (setting : Setting β) (prepared : Except MachineError Machine)
    (result : Status) (after : Tick β) : Prop :=
  ∃ machine count left, prepared = .ok machine ∧ count ≤ stepBudget setting.shape ∧
    Steps setting count { tick with machine } left ∧ left.machine.command = .done ∧
    left.finish setting = .ok ⟨.ok result, after⟩

/-- Steps to the end of a prepared traversal are followed by what finishes the tick. -/
theorem Tick.Steps.complete_eq {setting : Setting β} {prepared : Except MachineError Machine}
    {machine : Machine} {count : Nat} {left : Tick β} (prepares : prepared = .ok machine)
    (enough : count ≤ stepBudget setting.shape)
    (steps : Steps setting count { tick with machine } left) (done : left.machine.command = .done) :
    tick.complete setting prepared = left.finish setting := by
  have ran := steps.run_eq (by rw [done]; rfl) enough
  rw [prepares]
  simp only [complete, ran, bind, Except.bind]

/-- A traversal that comes to its end is what the whole tick comes to. -/
theorem Tick.Completes.complete_eq {setting : Setting β} {prepared : Except MachineError Machine}
    {result : Status} {after : Tick β} (completes : tick.Completes setting prepared result after) :
    tick.complete setting prepared = .ok ⟨.ok result, after⟩ := by
  obtain ⟨machine, count, left, prepares, enough, steps, done, finishes⟩ := completes
  rw [steps.complete_eq prepares enough done, finishes]

/-- With no open decider around it, a tree leads on to the clean-up, at once or after one step. -/
theorem Tree.resume_or_cleanup {tree : Tree} {cursor : Nat}
    (standing : Stands tick (tree.exit []) cursor []) :
    Stands tick .resume cursor [] ∨ Stands tick .cleanup cursor [] := by
  cases tree with
  | action => exact .inl standing
  | decider => exact .inr standing

/-- The scene of a tick. -/
def Tick.scene (tick : Tick β) (setting : Setting β) : Scene β := ⟨setting, tick.actor⟩

/-- What a tick must be given: room for the shape in the machine and in the actor, sparse arrays
that ascend, and no active entry at a decider. -/
structure Tick.Fit (tick : Tick β) (setting : Setting β) : Prop where
  sized : tick.machine.Sized
  covers : tick.machine.supports setting.shape.needs = true
  supports : tick.actor.supports setting.shape.needs = true
  ascending : tick.actor.isAscending = true
  undecided : ∀ entry ∈ tick.actor.outstanding.entries.toList, entry.value.isActive = true →
    (setting.shape.atom? entry.atom).any Atom.isDecider = false

namespace Tick
variable {setting : Setting β}

namespace Fit

theorem ready (fit : tick.Fit setting) : (tick.scene setting).Ready := by
  obtain ⟨continuations, outstanding⟩ := tick.actor.isAscending_iff.mp fit.ascending
  refine ⟨continuations, outstanding, fun index rule stop stands => ?_⟩
  cases found : tick.actor.outstanding.find? index with
  | none => simp [Scene.wasActive, Scene.remembered, Tick.scene, found]
  | some status =>
    have member := (SparseStates.find?_eq_some_iff outstanding index status).mp found
    have idle : status.isActive = false := by
      by_contra active
      rw [Bool.not_eq_false] at active
      have decided := fit.undecided _ member active
      have stands : setting.shape.atom? index = some (.decider rule stop) := stands
      rw [stands] at decided
      cases decided
    simpa [Scene.wasActive, Scene.remembered, Tick.scene, found] using idle

theorem checkRoom (fit : tick.Fit setting) :
    tick.machine.checkRoom tick.actor setting.shape = .ok () := by
  have enough : tick.machine.capacities.shortfall? setting.shape.needs = none :=
    Option.isNone_iff_eq_none.mp fit.covers
  simp only [Machine.checkRoom, enough, fit.supports, if_true]

/-- A reset machine mirrors a course in which nothing has happened. -/
theorem mirror_opening (fit : tick.Fit setting) (command : Command) (status : Status) :
    Mirror (tick.scene setting) tick.machine.capacities tick.calls 0
      { tick with machine := { tick.machine.reset with command, status } }
      ((tick.scene setting).opening tick.board) where
  board := rfl
  actor := rfl
  calls := (List.append_nil _).symm
  continuations := by simp [Machine.reset, Scene.opening]
  outstanding := by simp [Machine.reset, Scene.opening]
  launches := by simp [Machine.reset, Scene.opening]
  cancels := by simp [Machine.reset, Scene.opening, Scene.cancelRequests]
  changes := by simp [Machine.reset, Scene.opening, Scene.slotChanges]
  pending := rfl
  outstandingCursor := .zero _
  continuationCursor := ⟨0, Nat.le_refl 0, .zero _⟩
  slotCursor := ⟨0, Nat.le_refl 0, .zero _⟩
  sized := fit.sized
  capacities := rfl

end Fit

/-- A traversal has been prepared, and its steps have led to a settled state with a status; they
have told a story and shown notices, and have visited only trees of the shape. -/
structure Settles (tick : Tick β) (setting : Setting β) (prepared : Except MachineError Machine)
    (machine : Machine) (finish : Status × Course β) (told : List Happening) (shown : List Notice)
    (settled : Tick β) : Prop where
  prepares : prepared = .ok machine
  path : ∃ count ≤ stepBudget setting.shape, Path setting
    (Visiting (tick.scene setting) tick.machine.capacities tick.calls 0) count
    { tick with machine } settled
  status : settled.machine.status = finish.1
  leaves : Settled (tick.scene setting) tick.machine.capacities tick.calls settled finish.2
  story : settled.story = tick.story ++ told
  shows : Shows setting shown tick settled

namespace Settles
variable {prepared : Except MachineError Machine} {machine : Machine} {finish : Status × Course β}
  {told : List Happening} {shown : List Notice} {settled : Tick β}

/-- What a settled traversal comes to. -/
theorem performs (settles : tick.Settles setting prepared machine finish told shown settled)
    (fit : tick.Fit setting) {position : Nat}
    (sound : Sound (tick.scene setting) position finish.2) :
    ∃ after, tick.Completes setting prepared finish.1 after ∧
      Performs (tick.scene setting) tick finish.2 after := by
  obtain ⟨count, enough, path⟩ := settles.path
  obtain ⟨after, finishes, performs⟩ :=
    settles.leaves.finish sound fit.supports tick rfl rfl
  rw [settles.status] at finishes
  exact ⟨after, ⟨machine, count, settled, settles.prepares, enough, path.steps,
    settles.leaves.command, finishes⟩, performs⟩

/-- What a tick tells is what its steps have told. -/
theorem story_eq (settles : tick.Settles setting prepared machine finish told shown settled)
    {answer : Except MachineError Status} {after : Tick β}
    (completed : tick.complete setting prepared = .ok ⟨answer, after⟩) :
    after.story = tick.story ++ told := by
  obtain ⟨count, enough, path⟩ := settles.path
  rw [path.steps.complete_eq settles.prepares enough settles.leaves.command] at completed
  have finishes : settled.Quiet after := quiet_finish settled setting _ completed
  exact Eq.trans finishes settles.story

/-- What a tick shows is what its steps have shown. -/
theorem notices_eq (settles : tick.Settles setting prepared machine finish told shown settled)
    {answer : Except MachineError Status} {after : Tick β}
    (completed : tick.complete setting prepared = .ok ⟨answer, after⟩) :
    Shows setting shown tick after := by
  obtain ⟨count, enough, path⟩ := settles.path
  rw [path.steps.complete_eq settles.prepares enough settles.leaves.command] at completed
  have finishes : Shows setting [] settled after := shows_finish settled setting _ completed
  exact settles.shows.silent finishes

end Settles

/-- The steps of a prepared traversal have led to the clean-up, with all deciders left: a status has
been delivered, and the course is sound; they have told a story and shown notices, and have visited
only trees of the shape. -/
structure Cleans (tick : Tick β) (setting : Setting β) (machine : Machine) (position : Nat)
    (finish : Status × Course β) (told : List Happening) (shown : List Notice) (cleaning : Tick β) :
    Prop where
  path : ∃ count < stepBudget setting.shape, Path setting
    (Visiting (tick.scene setting) tick.machine.capacities tick.calls 0) count
    { tick with machine } cleaning
  standing : ∃ cursor, Stands cleaning .cleanup cursor []
  status : cleaning.machine.status = finish.1
  mirror : Mirror (tick.scene setting) tick.machine.capacities tick.calls position cleaning finish.2
  sound : Sound (tick.scene setting) position finish.2
  story : cleaning.story = tick.story ++ told
  shows : Shows setting shown tick cleaning

/-- What is cleaned up is settled by one more step, in which what is still pending is canceled. -/
theorem Cleans.settles {machine : Machine} {position : Nat} {finish : Status × Course β}
    {told : List Happening} {shown : List Notice} {cleaning : Tick β} (fit : tick.Fit setting)
    (cleans : tick.Cleans setting machine position finish told shown cleaning)
    {prepared : Except MachineError Machine} (prepares : prepared = .ok machine) :
    ∃ settled, tick.Settles setting prepared machine
      (finish.1, finish.2.drain (tick.scene setting)) told
      (shown ++ Notice.ofCancels 0 (finish.2.due (tick.scene setting))) settled := by
  obtain ⟨count, enough, path⟩ := cleans.path
  obtain ⟨cursor, standing⟩ := cleans.standing
  obtain ⟨settled, step, status, settles⟩ :=
    cleans.mirror.step_cleanup fit.ready fit.covers cleans.sound standing
  have up : cleaning.machine.command ≠ .invoke := by
    rw [standing.command]
    exact Command.noConfusion
  have last : Path setting (Visiting (tick.scene setting) tick.machine.capacities tick.calls 0) 1
      cleaning settled :=
    .single ⟨Nat.zero_le _, fun invoke => absurd invoke up⟩ (by rw [standing.command]; rfl) step
  have quiet : cleaning.Quiet settled := quiet_cleanup step standing.command
  have shows := cleans.mirror.shows_cleanup fit.ready cleans.sound standing step
  exact ⟨settled, prepares, ⟨count + 1, enough, path.trans last⟩, status.trans cleans.status,
    settles, Eq.trans quiet cleans.story, cleans.shows.trans shows⟩

namespace Fit

/-- At the beginning of an update, the machine is about to visit the whole tree. -/
theorem poised (fit : tick.Fit setting) :
    Poised (tick.scene setting) tick.machine.capacities tick.calls
      { tick with machine := { tick.machine.reset with command := .invoke } }
      ((tick.scene setting).whole tick.board) [] := by
  have mirror : Mirror (tick.scene setting) tick.machine.capacities tick.calls 0
      { tick with machine := { tick.machine.reset with command := .invoke } }
      ((tick.scene setting).opening tick.board) := fit.mirror_opening .invoke .fail
  have untouched : ((tick.scene setting).opening tick.board).drain (tick.scene setting) =
      (tick.scene setting).opening tick.board := Course.drain_of_isEmpty _ rfl
  rw [← untouched] at mirror
  refine ⟨(tick.scene setting).whole_valid tick.board, ?_, mirror,
    ⟨rfl, rfl, by simp [Machine.reset]⟩⟩
  have frames := (Capacities.covers_iff _ _).mp fit.covers .frames
  rw [List.length_nil, Nat.zero_add]
  exact Nat.le_trans setting.shape.depth_tree_le frames

/-- An update goes through the whole tree, and what is cleaned up is what the interpretation
leaves. -/
theorem update_cleans (fit : tick.Fit setting) : ∃ cleaning, tick.Cleans setting
    { tick.machine.reset with command := .invoke } ((tick.scene setting).whole tick.board).stop
    (((tick.scene setting).whole tick.board).finish (tick.scene setting))
    (((tick.scene setting).whole tick.board).tour (tick.scene setting))
    ((((tick.scene setting).whole tick.board).passages (tick.scene setting) 0).flatMap
      Passage.notices) cleaning := by
  let scene := tick.scene setting
  let whole := scene.whole tick.board
  let begun : Tick β := { tick with machine := { tick.machine.reset with command := .invoke } }
  have poised := fit.poised
  obtain ⟨count, entered, left, count_le, delivered⟩ :=
    scene.shape.tree.simulates fit.ready fit.covers poised
  have left_sound := poised.valid.sound_after fit.ready
  have path : Path setting (Visiting scene tick.machine.capacities tick.calls 0) (count + 1) begun
      left :=
    .cons ⟨Nat.zero_le _, fun _ => ⟨_, _, poised⟩⟩ rfl delivered.first
      (delivered.path.mono fun _ visiting => visiting.mono (Nat.zero_le _))
  have size : scene.shape.tree.size = setting.shape.size := setting.shape.size_tree
  rw [size] at count_le
  have mirror := delivered.mirror
  -- An action at the root leaves one more step, in which no decider takes note.
  obtain resume | cleanup := Tree.resume_or_cleanup delivered.standing
  · obtain ⟨closed, step, closed_standing, closed_status, closed_mirror⟩ :=
      mirror.step_resume_closed resume
    have up : left.machine.command ≠ .invoke := by
      rw [resume.command]
      exact Command.noConfusion
    have last : Path setting (Visiting scene tick.machine.capacities tick.calls 0) 1 left closed :=
      .single ⟨Nat.zero_le _, fun invoke => absurd invoke up⟩ (by rw [resume.command]; rfl) step
    have top := Buffer.top?_empty resume.frames
    have quiet : left.Quiet closed := quiet_closed step resume.command top
    have silent : Shows setting [] left closed := shows_closed step resume.command top
    refine ⟨closed, ⟨count + 2, ?_, path.trans last⟩, ⟨_, closed_standing⟩,
      closed_status.trans delivered.status, closed_mirror, left_sound,
      Eq.trans quiet delivered.story, delivered.shows.silent silent⟩
    simp only [stepBudget]
    omega
  · refine ⟨left, ⟨count + 1, ?_, path⟩, ⟨_, cleanup⟩, delivered.status, mirror, left_sound,
      delivered.story, delivered.shows⟩
    simp only [stepBudget]
    omega

/-- An update settles what the interpretation leaves. -/
theorem update_settles (fit : tick.Fit setting) : ∃ settled, tick.Settles setting
    (tick.machine.prepareUpdate tick.actor setting.shape)
    { tick.machine.reset with command := .invoke } ((tick.scene setting).update tick.board)
    (((tick.scene setting).whole tick.board).tour (tick.scene setting))
    ((((tick.scene setting).whole tick.board).passages (tick.scene setting) 0).flatMap
        Passage.notices ++
      Notice.ofCancels 0 ((((tick.scene setting).whole tick.board).after
        (tick.scene setting)).due (tick.scene setting))) settled := by
  obtain ⟨cleaning, cleans⟩ := fit.update_cleans
  exact cleans.settles fit (Machine.prepareUpdate_eq fit.checkRoom)

/-- What an update leaves is sound. -/
theorem update_sound (fit : tick.Fit setting) :
    Sound (tick.scene setting) ((tick.scene setting).whole tick.board).stop
      ((tick.scene setting).update tick.board).2 :=
  (fit.poised.valid.sound_after fit.ready).drain fit.ready

/-- An update of a fitting tick answers what the root delivers, and does what the course says. -/
theorem update_performs (fit : tick.Fit setting) :
    ∃ after, tick.Completes setting (tick.machine.prepareUpdate tick.actor setting.shape)
        ((tick.scene setting).update tick.board).1 after ∧
      Performs (tick.scene setting) tick ((tick.scene setting).update tick.board).2 after := by
  obtain ⟨settled, settles⟩ := fit.update_settles
  exact settles.performs fit fit.update_sound

/-- An update tells the tour of the whole tree. -/
theorem story_update (fit : tick.Fit setting) {answer : Except MachineError Status} {after : Tick β}
    (updated : tick.update setting = .ok ⟨answer, after⟩) :
    after.story =
      tick.story ++ ((tick.scene setting).whole tick.board).tour (tick.scene setting) := by
  obtain ⟨settled, settles⟩ := fit.update_settles
  exact settles.story_eq updated

/-- An update shows the passages of the whole tree, and then what is still to be canceled. -/
theorem shows_update (fit : tick.Fit setting) {answer : Except MachineError Status} {after : Tick β}
    (updated : tick.update setting = .ok ⟨answer, after⟩) :
    Shows setting
      ((((tick.scene setting).whole tick.board).passages (tick.scene setting) 0).flatMap
          Passage.notices ++
        Notice.ofCancels 0 ((((tick.scene setting).whole tick.board).after
          (tick.scene setting)).due (tick.scene setting))) tick after := by
  obtain ⟨settled, settles⟩ := fit.update_settles
  exact settles.notices_eq updated

/-- In a cancellation, what is cleaned up is the abandoned shape. -/
theorem cancel_cleans (fit : tick.Fit setting) : tick.Cleans setting
    { tick.machine.reset with
      command := .cleanup, status := .cancel, pending := Span.empty.cover ⟨0, setting.shape.size⟩ }
    setting.shape.size
    (.cancel, ((tick.scene setting).opening tick.board).abandon ⟨0, setting.shape.size⟩) [] []
    { tick with machine := { tick.machine.reset with
      command := .cleanup, status := .cancel
      pending := Span.empty.cover ⟨0, setting.shape.size⟩ } } := by
  refine ⟨⟨0, ?_, .refl _⟩, ⟨0, rfl, rfl, by simp [Machine.reset]⟩, rfl, ?_, ?_,
    (List.append_nil _).symm, .of_trace rfl⟩
  · simp only [stepBudget]
    omega
  · exact { (fit.mirror_opening .cleanup .cancel).later (Nat.zero_le _) with pending := rfl }
  · exact (Sound.opening (tick.scene setting) tick.board).abandon (Nat.zero_le _) (Nat.le_refl _)
      fun request member => by cases member

/-- A cancellation settles what the abandoned shape leaves. -/
theorem cancel_settles (fit : tick.Fit setting) : ∃ settled, tick.Settles setting
    (tick.machine.prepareCancel tick.actor setting.shape)
    { tick.machine.reset with
      command := .cleanup, status := .cancel, pending := Span.empty.cover ⟨0, setting.shape.size⟩ }
    (.cancel, (tick.scene setting).cancel tick.board) []
    (Notice.ofCancels 0 ((((tick.scene setting).opening tick.board).abandon
      ⟨0, setting.shape.size⟩).due (tick.scene setting))) settled :=
  fit.cancel_cleans.settles fit (Machine.prepareCancel_eq fit.checkRoom)

/-- What a cancellation leaves is sound. -/
theorem cancel_sound (fit : tick.Fit setting) :
    Sound (tick.scene setting) setting.shape.size ((tick.scene setting).cancel tick.board) :=
  (Sound.opening (tick.scene setting) tick.board).reaches fit.ready
    ((tick.scene setting).cancel_reaches (fun _ => True) tick.board)

/-- A cancellation of a fitting tick answers that, and does what the course says. -/
theorem cancel_performs (fit : tick.Fit setting) :
    ∃ after, tick.Completes setting (tick.machine.prepareCancel tick.actor setting.shape)
        .cancel after ∧
      Performs (tick.scene setting) tick ((tick.scene setting).cancel tick.board) after := by
  obtain ⟨settled, settles⟩ := fit.cancel_settles
  exact settles.performs fit fit.cancel_sound

/-- A cancellation visits nothing. -/
theorem story_cancel (fit : tick.Fit setting) {answer : Except MachineError Status} {after : Tick β}
    (canceled : tick.cancel setting = .ok ⟨answer, after⟩) : after.story = tick.story := by
  obtain ⟨settled, settles⟩ := fit.cancel_settles
  rw [settles.story_eq canceled, List.append_nil]

end Fit

end Tick

end BehaviorTree
