import BehaviorTree.Proofs.Simulation.Drain
import BehaviorTree.Proofs.Simulation.Visit

namespace BehaviorTree
open Machine
variable {β : Type} {scene : Scene β} {capacities : Capacities} {earlier : List Call}
  {position : Nat} {tick : Tick β} {course : Course β}

namespace Machine
variable {machine : Machine} {frame : Frame} {status : Status}

theorem absorbSequence_active {reached : Nat} (active : status.isActive = true) :
    machine.absorbSequence frame reached status = do
      let continuations ← machine.continuations.push ⟨frame.atom, reached⟩
      return (frame, { machine with continuations, cursor := frame.stop }) := by
  cases status with
  | launch => rfl
  | running => rfl
  | _ => cases active

theorem absorbDynamicPriority_passed (passed : status ≠ .fail) (notCanceled : status ≠ .cancel) :
    machine.absorbDynamicPriority frame status = (frame, { machine with
      pending := machine.pending.cover ⟨machine.cursor, frame.stop⟩
      cursor := frame.stop }) := by
  cases status with
  | fail => exact absurd rfl passed
  | cancel => exact absurd rfl notCanceled
  | _ => rfl

end Machine

/-- What follows when a decider is left: the decider around it takes note, if there is one. -/
def Command.afterLeave (outer : List Frame) : Command := if outer = [] then .cleanup else .resume

/-- The tick comes to leave a decider, with a status and a course. -/
def Leaves (scene : Scene β) (capacities : Capacities) (earlier : List Call) (position : Nat)
    (outer : List Frame) (status : Status) (course : Course β) (after : Tick β) : Prop :=
  Stands after (.afterLeave outer) position outer ∧ after.machine.status = status ∧
    Mirror scene capacities earlier position after course

namespace Mirror

/-- A decider is left. -/
theorem leaveDecider (mirror : Mirror scene capacities earlier position tick course)
    {outer : List Frame} {top : Frame} (cursor : tick.machine.cursor = position)
    (frames : tick.machine.frames.contents.toList = outer ++ [top]) (frame : Frame)
    (child : Status) :
    ∃ after, tick.leaveDecider scene.toSetting frame child = .ok after ∧
      Leaves scene capacities earlier position outer (frame.result child) course after := by
  obtain ⟨popped, pop, contents, capacity⟩ := Buffer.pop_last frames
  have left := (((mirror.steer tick.machine.command (frame.result child) tick.machine.cursor
    capacity).log (.deciderLeft frame.atom (frame.result child))).notify scene.toSetting frame.atom
      (.leave ||| .fromBottom)).proceed (.afterLeave outer)
  have command : (if popped.isEmpty then Command.cleanup else .resume) = .afterLeave outer := by
    have empty := Buffer.isEmpty_iff popped
    rw [contents] at empty
    by_cases none : outer = []
    · rw [Command.afterLeave, if_pos none, if_pos (empty.mpr none)]
    · rw [Command.afterLeave, if_neg none, if_neg fun isEmpty => none (empty.mp isEmpty)]
  refine ⟨_, ?_, ⟨rfl, ?_, ?_⟩, ?_, left⟩
  · simp only [Tick.leaveDecider, pop, bind, Except.bind, pure, Except.pure, command]
  · simpa [Tick.proceed, Tick.machine_notify, Tick.log, Tick.emit] using cursor
  · simpa [Tick.proceed, Tick.machine_notify, Tick.log, Tick.emit] using contents
  · simp [Tick.proceed, Tick.machine_notify, Tick.log, Tick.emit]

/-- A decider goes on with its next child. -/
theorem nextChild (mirror : Mirror scene capacities earlier position tick course)
    (ready : scene.Ready) (covers : capacities.covers scene.shape.needs = true)
    (sound : Sound scene position course) {outer : List Frame} {top : Frame}
    (cursor : tick.machine.cursor = position)
    (frames : tick.machine.frames.contents.toList = outer ++ [top]) (frame : Frame) :
    ∃ after, tick.nextChild scene.toSetting frame = .ok after ∧
      Stands after .invoke position (outer ++ [frame]) ∧
      Mirror scene capacities earlier position after (course.drain scene) := by
  obtain ⟨contents, capacity⟩ := Buffer.setTop_last frames frame
  have set := (mirror.steer tick.machine.command tick.machine.status tick.machine.cursor
    capacity).notify scene.toSetting frame.atom (.leave ||| .fromTop)
  obtain ⟨drained, drains, control, drained_mirror⟩ := set.drain ready covers sound
  obtain ⟨-, -, cursor_eq, frames_eq⟩ := control
  refine ⟨drained.proceed .invoke, ?_, ⟨rfl, ?_, ?_⟩, drained_mirror.proceed _⟩
  · have drains : Tick.drain (Tick.notify { tick with machine.frames := tick.machine.frames.setTop frame }
        scene.toSetting frame.atom (.leave ||| .fromTop)) scene.toSetting = .ok drained := drains
    simp only [Tick.nextChild, drains, bind, Except.bind, pure, Except.pure]
  · simp only [Tick.proceed, cursor_eq, Tick.machine_notify, cursor]
  · simp only [Tick.proceed, frames_eq, Tick.machine_notify, contents]

section
variable {outer : List Frame} {frame : Frame}
  (mirror : Mirror scene capacities earlier position tick course)
  (standing : Stands tick .resume position (outer ++ [frame]))
include mirror standing

/-- The decider on top takes note, and is left if it has no more children to visit. -/
theorem step_resume : ∃ noticed : Tick β, noticed.machine = tick.machine ∧
    Mirror scene capacities earlier position noticed course ∧
    ∀ {after : Frame} {machine : Machine}, tick.machine.absorb frame = .ok (after, machine) →
      tick.step scene.toSetting =
        if after.stop ≤ machine.cursor then
          Tick.leaveDecider { noticed with machine } scene.toSetting after tick.machine.status
        else Tick.nextChild { noticed with machine } scene.toSetting after := by
  have top := Buffer.top?_last standing.frames
  let logged := tick.log (.stepStarted tick.machine.command tick.machine.cursor tick.machine.status)
  let noticed := logged.notify scene.toSetting frame.atom (.enter ||| .fromBottom)
  have machine_eq : noticed.machine = tick.machine := Tick.machine_notify _ _ _ _
  refine ⟨noticed, machine_eq, (mirror.log _).notify _ _ _, ?_⟩
  intro after machine absorbed
  have stepped : tick.step scene.toSetting = logged.resume scene.toSetting := by
    simp only [Tick.step, standing.command, logged]
  have top : logged.machine.frames.top? = some frame := top
  have absorbed : noticed.machine.absorb frame = .ok (after, machine) := by
    rw [machine_eq, absorbed]
  simp only [noticed] at absorbed
  rw [stepped]
  simp only [Tick.resume, top, absorbed, bind, Except.bind]
  rfl

omit standing in
/-- Where no decider is open, the cleanup follows. -/
theorem step_resume_closed (standing : Stands tick .resume position []) :
    ∃ closed, tick.step scene.toSetting = .ok closed ∧ Stands closed .cleanup position [] ∧
      closed.machine.status = tick.machine.status ∧
      Mirror scene capacities earlier position closed course := by
  have top := Buffer.top?_empty standing.frames
  let logged := tick.log (.stepStarted tick.machine.command tick.machine.cursor tick.machine.status)
  have top : logged.machine.frames.top? = none := top
  refine ⟨logged.proceed .cleanup, ?_, ⟨rfl, standing.cursor, standing.frames⟩, rfl,
    (mirror.log _).proceed _⟩
  have stepped : tick.step scene.toSetting = logged.resume scene.toSetting := by
    simp only [Tick.step, standing.command, logged]
  rw [stepped]
  simp only [Tick.resume, top]

/-- A decider that has noted the status without a further effect goes on with the next child. -/
theorem resume_next (ready : scene.Ready)
    (covers : capacities.covers scene.shape.needs = true) (sound : Sound scene position course)
    {after : Frame} (absorbed : tick.machine.absorb frame = .ok (after, tick.machine))
    (more : position < after.stop) :
    ∃ next, tick.step scene.toSetting = .ok next ∧
      Stands next .invoke position (outer ++ [after]) ∧
      Mirror scene capacities earlier position next (course.drain scene) := by
  obtain ⟨noticed, machine_eq, noticed_mirror, step⟩ := mirror.step_resume standing
  have notLeft : ¬after.stop ≤ tick.machine.cursor := by
    rw [standing.cursor]
    omega
  have cursor : noticed.machine.cursor = position := by rw [machine_eq, standing.cursor]
  have frames : noticed.machine.frames.contents.toList = outer ++ [frame] := by
    rw [machine_eq, standing.frames]
  rw [step absorbed, if_neg notLeft, ← machine_eq]
  exact noticed_mirror.nextChild ready covers sound cursor frames after

/-- A decider that has noted the status without a further effect is left behind its last child. -/
theorem resume_last {after : Frame}
    (absorbed : tick.machine.absorb frame = .ok (after, tick.machine))
    (last : after.stop ≤ position) :
    ∃ left, tick.step scene.toSetting = .ok left ∧
      Leaves scene capacities earlier position outer (after.result tick.machine.status) course
        left := by
  obtain ⟨noticed, machine_eq, noticed_mirror, step⟩ := mirror.step_resume standing
  have left : after.stop ≤ tick.machine.cursor := by
    rw [standing.cursor]
    exact last
  have cursor : noticed.machine.cursor = position := by rw [machine_eq, standing.cursor]
  have frames : noticed.machine.frames.contents.toList = outer ++ [frame] := by
    rw [machine_eq, standing.frames]
  rw [step absorbed, if_pos left, ← machine_eq]
  exact noticed_mirror.leaveDecider cursor frames after _

/-- A sequence whose child is active remembers that child. -/
theorem resume_record {reached : Nat} (progress : frame.progress = .sequence reached)
    (active : tick.machine.status.isActive = true) (inside : position ≤ frame.stop)
    (room : (course.record frame.atom reached).continuations.length ≤ capacities.continuations) :
    ∃ left, tick.step scene.toSetting = .ok left ∧
      Leaves scene capacities earlier frame.stop outer tick.machine.status
        (course.record frame.atom reached) left := by
  obtain ⟨noticed, machine_eq, noticed_mirror, step⟩ := mirror.step_resume standing
  have free : tick.machine.continuations.count < tick.machine.continuations.capacity := by
    rw [mirror.sized.continuations, mirror.capacities, ← Buffer.length_contents,
      mirror.continuations]
    rw [Course.record, List.length_append, List.length_singleton] at room
    exact room
  obtain ⟨continuations, pushed, contents, capacity⟩ :=
    Buffer.push_room free ⟨frame.atom, reached⟩
  have absorbed : tick.machine.absorb frame =
      .ok (frame, { tick.machine with continuations, cursor := frame.stop }) := by
    simp only [Machine.absorb, progress, absorbSequence_active active, pushed, bind, Except.bind,
      pure, Except.pure]
  have result : frame.result tick.machine.status = tick.machine.status := by
    rw [Frame.result, progress]
  have recorded : Mirror scene capacities earlier frame.stop
      { noticed with machine := { tick.machine with continuations, cursor := frame.stop } }
      (course.record frame.atom reached) := by
    rw [← machine_eq] at contents capacity ⊢
    exact { noticed_mirror.later inside with
      continuations := by rw [contents, noticed_mirror.continuations]; rfl
      sized := ⟨noticed_mirror.sized.frames, capacity.trans noticed_mirror.sized.continuations,
        noticed_mirror.sized.outstanding, noticed_mirror.sized.changes,
        noticed_mirror.sized.requests⟩ }
  rw [step absorbed, if_pos (Nat.le_refl _)]
  have left := recorded.leaveDecider rfl standing.frames frame tick.machine.status
  rwa [result] at left

/-- A sequence whose child fails is left at once. -/
theorem resume_sequence_fail {reached : Nat} (progress : frame.progress = .sequence reached)
    (failed : tick.machine.status = .fail) (inside : position ≤ frame.stop) :
    ∃ left, tick.step scene.toSetting = .ok left ∧
      Leaves scene capacities earlier frame.stop outer .fail course left := by
  obtain ⟨noticed, machine_eq, noticed_mirror, step⟩ := mirror.step_resume standing
  have absorbed : tick.machine.absorb frame =
      .ok (frame, { tick.machine with cursor := frame.stop }) := by
    simp only [Machine.absorb, progress, failed, absorbSequence]
  have result : frame.result tick.machine.status = .fail := by
    rw [Frame.result, progress, failed]
  have moved : Mirror scene capacities earlier frame.stop
      { noticed with machine := { tick.machine with cursor := frame.stop } } course := by
    rw [← machine_eq]
    exact (noticed_mirror.later inside).steer _ _ _ rfl
  rw [step absorbed, if_pos (Nat.le_refl _)]
  have left := moved.leaveDecider rfl standing.frames frame tick.machine.status
  rwa [result] at left

/-- A dynamic priority whose child does not fail abandons the other children. -/
theorem resume_abandon (progress : frame.progress = .dynamicPriority)
    (passed : tick.machine.status ≠ .fail) (notCanceled : tick.machine.status ≠ .cancel)
    (inside : position ≤ frame.stop) :
    ∃ left, tick.step scene.toSetting = .ok left ∧
      Leaves scene capacities earlier frame.stop outer tick.machine.status
        (course.abandon ⟨position, frame.stop⟩) left := by
  obtain ⟨noticed, machine_eq, noticed_mirror, step⟩ := mirror.step_resume standing
  have absorbed : tick.machine.absorb frame = .ok (frame, { tick.machine with
      pending := tick.machine.pending.cover ⟨position, frame.stop⟩
      cursor := frame.stop }) := by
    simp only [Machine.absorb, progress, absorbDynamicPriority_passed passed notCanceled,
      standing.cursor]
  have result : frame.result tick.machine.status = tick.machine.status := by
    rw [Frame.result, progress]
  have abandoned : Mirror scene capacities earlier frame.stop
      { noticed with machine := { tick.machine with
        pending := tick.machine.pending.cover ⟨position, frame.stop⟩
        cursor := frame.stop } } (course.abandon ⟨position, frame.stop⟩) := by
    rw [← machine_eq]
    exact { noticed_mirror.later inside with
      pending := by rw [noticed_mirror.pending]; rfl }
  rw [step absorbed, if_pos (Nat.le_refl _)]
  have left := abandoned.leaveDecider rfl standing.frames frame tick.machine.status
  rwa [result] at left

/-- A concurrent decider whose child fails is abandoned as a whole, and what its children recorded
and launched is taken back. -/
theorem resume_takeBack {aggregate : Status} (progress : frame.progress = .concurrent aggregate)
    (failed : tick.machine.status = .fail) (inside : position ≤ frame.stop) {index : Nat}
    {entered : Course β} (grown : Course.Grows index entered course)
    (continuationMark : frame.continuationMark = entered.continuations.length)
    (launchMark : frame.launchMark = entered.launches.length) :
    ∃ left, tick.step scene.toSetting = .ok left ∧
      Leaves scene capacities earlier frame.stop outer .fail
        ((course.takeBack entered).abandon ⟨frame.atom, frame.stop⟩) left := by
  obtain ⟨noticed, machine_eq, noticed_mirror, step⟩ := mirror.step_resume standing
  obtain ⟨recorded, recorded_eq, -⟩ := grown.continuations
  obtain ⟨launched, launched_eq, -⟩ := grown.launches
  have continuations_le :
      frame.continuationMark ≤ tick.machine.continuations.contents.toList.length := by
    rw [mirror.continuations, recorded_eq, continuationMark, List.length_append]
    exact Nat.le_add_right _ _
  have launches_le : frame.launchMark ≤ tick.machine.requests.launches.toList.length := by
    rw [mirror.launches, launched_eq, launchMark, List.length_append]
    exact Nat.le_add_right _ _
  obtain ⟨continuations, truncated, contents, capacity⟩ := Buffer.truncate_shrink continuations_le
  obtain ⟨requests, cut, launches, cancels, requests_capacity⟩ :=
    RequestQueue.truncateLaunches_shrink launches_le
  rw [mirror.continuations, recorded_eq, continuationMark, List.take_left] at contents
  rw [mirror.launches, launched_eq, launchMark, List.take_left] at launches
  have absorbed : tick.machine.absorb frame = .ok (frame, { tick.machine with
      continuations
      requests
      pending := tick.machine.pending.cover ⟨frame.atom, frame.stop⟩
      cursor := frame.stop }) := by
    simp only [Machine.absorb, progress, failed, absorbConcurrent, truncated, cut, bind, Except.bind,
      pure, Except.pure]
  have result : frame.result tick.machine.status = .fail := by
    simp only [Frame.result, progress, failed, if_true]
  have abandoned : Mirror scene capacities earlier frame.stop
      { noticed with machine := { tick.machine with
        continuations
        requests
        pending := tick.machine.pending.cover ⟨frame.atom, frame.stop⟩
        cursor := frame.stop } }
      ((course.takeBack entered).abandon ⟨frame.atom, frame.stop⟩) := by
    rw [← machine_eq] at capacity requests_capacity cancels ⊢
    exact { noticed_mirror.later inside with
      continuations := contents
      launches := launches
      cancels := by rw [cancels, noticed_mirror.cancels]; rfl
      pending := by rw [noticed_mirror.pending]; rfl
      sized := ⟨noticed_mirror.sized.frames, capacity.trans noticed_mirror.sized.continuations,
        noticed_mirror.sized.outstanding, noticed_mirror.sized.changes,
        requests_capacity.trans noticed_mirror.sized.requests⟩ }
  rw [step absorbed, if_pos (Nat.le_refl _)]
  have left := abandoned.leaveDecider rfl standing.frames frame tick.machine.status
  rwa [result] at left

end

end Mirror

end BehaviorTree
