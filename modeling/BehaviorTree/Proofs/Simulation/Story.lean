import BehaviorTree.Proofs.Course.Tour
import BehaviorTree.Proofs.Simulation.Footprint

namespace BehaviorTree
variable {β : Type}

/-- What an event tells about a node. -/
def Event.happening? : Event β → Option Happening
  | .logged (.stepStarted .invoke cursor _) => some (.entered cursor)
  | .logged (.actionVisited atom result) => some (.left atom result)
  | .logged (.deciderLeft atom result) => some (.left atom result)
  | .logged _ | .called _ _ _ _ | .noticed _ _ _ => none

/-- A minor event tells nothing about a node. -/
theorem Event.happening?_of_isMinor {event : Event β} (minor : event.isMinor = true) :
    event.happening? = none := by
  cases event with
  | called | noticed => rfl
  | logged event => cases event <;> first | rfl | cases minor

namespace Tick
variable {tick after : Tick β} {setting : Setting β}

/-- What has happened to the nodes so far, in order. -/
def story (tick : Tick β) : List Happening := tick.trace.toList.filterMap Event.happening?

/-- A node has been visited. -/
def Visits (tick : Tick β) (atom : Nat) : Prop := .entered atom ∈ tick.story

/-- An operation adds nothing to the story. -/
def Quiet (tick after : Tick β) : Prop := after.story = tick.story

theorem story_emit (tick : Tick β) (event : Event β) :
    (tick.emit event).story = tick.story ++ event.happening?.toList := by
  simp only [story, emit, Array.toList_push, List.filterMap_append]
  cases told : event.happening? <;> simp [told]

theorem quiet_emit {event : Event β} (silent : event.happening? = none) :
    tick.Quiet (tick.emit event) := by
  rw [Quiet, story_emit, silent, Option.toList_none, List.append_nil]

theorem quiet_notify (tick : Tick β) (setting : Setting β) (atom : Nat) (flags : Flags) :
    tick.Quiet (tick.notify setting atom flags) := by
  unfold notify
  split
  · exact quiet_emit rfl
  · rfl

theorem Quiet.refl (tick : Tick β) : tick.Quiet tick := rfl

theorem Quiet.trans {middle : Tick β} (first : tick.Quiet middle) (second : middle.Quiet after) :
    tick.Quiet after :=
  Eq.trans second first

open Checked

theorem Calm.quiet (calm : tick.Calm after) : tick.Quiet after :=
  calm.filterMap_trace Event.happening?_of_isMinor

theorem Attends.quiet {atom : Nat} (attends : tick.Attends Calm atom after) : tick.Quiet after := by
  obtain ⟨read, taken, middle, calm, stays⟩ := attends
  obtain ⟨-, cursor, -, passed⟩ := tick.takeOutstanding_eq atom read taken
  rw [passed] at calm
  obtain rfl | ⟨status, pushed⟩ := stays
  · exact calm.quiet
  · obtain ⟨outstanding, rfl, -⟩ := middle.pushOutstanding_eq atom status after pushed
    exact calm.quiet

theorem quiet_cancelAt (tick : Tick β) (setting : Setting β) (index : Nat) :
    (tick.cancelAt setting index).Ensures tick.Quiet := by
  unfold cancelAt
  split
  · exact ensures_ok.mpr (quiet_emit rfl)
  · refine (calm_cancelAtom _ setting index _).bind fun canceled calm => ?_
    exact ensures_pure.mpr
      (((quiet_notify _ _ _ _).trans calm.quiet).trans (quiet_notify _ _ _ _))

theorem quiet_cancelAll (setting : Setting β) (indices : List Nat) (tick : Tick β) :
    (cancelAll setting indices tick).Ensures tick.Quiet :=
  ensures_cancelAll (fun tick index => tick.quiet_cancelAt setting index) .refl .trans indices tick

theorem quiet_drain (tick : Tick β) (setting : Setting β) :
    (tick.drain setting).Ensures tick.Quiet := by
  refine (tick.drain_clears setting).mono fun after clears => ?_
  cases clears with
  | idle => rfl
  | cancels _ canceled _ =>
    have quiet : tick.Quiet _ := quiet_cancelAll setting _ tick.emptied _ canceled
    exact quiet.trans (quiet_emit rfl)

theorem quiet_reorder (tick : Tick β) : tick.reorder.Ensures tick.Quiet := by
  refine tick.reorder_reorders.mono fun after reorders => ?_
  cases reorders with
  | silently => rfl
  | reporting => exact quiet_emit rfl

/-- A delivered status ends the visit of an action. -/
theorem story_deliver {visited : Tick β} (quiet : tick.Quiet visited) (setting : Setting β)
    (atom : Nat) (result : Status) :
    (visited.deliver setting atom result).story =
      tick.story ++ [.left atom (visited.deliver setting atom result).machine.status] := by
  have status : (visited.deliver setting atom result).machine.status = result := by
    unfold deliver proceed notify
    split <;> rfl
  have told : (visited.deliver setting atom result).story =
      (visited.log (.actionVisited atom result)).story := quiet_notify _ _ _ _
  rw [status, told, log, story_emit, quiet]
  rfl

theorem story_visitAtom (tick : Tick β) (setting : Setting β) (index : Nat) (leaf : Leaf) :
    (tick.visitAtom setting index leaf.atom).Ensures fun after =>
      after.story = tick.story ++ [.left index after.machine.status] := by
  have acts : leaf.atom.isDecider = false := by cases leaf <;> rfl
  refine (tick.attends_visitAtom setting index acts).mono ?_
  rintro after ⟨visited, result, attends, rfl⟩
  exact story_deliver attends.quiet setting index result

theorem quiet_enterDecider (tick : Tick β) (setting : Setting β) (frame : Frame) :
    (tick.enterDecider setting frame).Ensures tick.Quiet := by
  unfold enterDecider
  split
  · exact ensures_pure.mpr (quiet_emit rfl)
  · refine (ensures_true _).bind fun _ _ => (ensures_true _).bind fun _ _ => ?_
    refine (calm_resumption _ frame).bind fun ⟨start, resumed, read⟩ ⟨calm, _⟩ => ?_
    refine (ensures_true _).bind fun frames _ => ensures_pure.mpr ?_
    exact Quiet.trans calm.quiet (quiet_notify _ setting resumed.atom _)

theorem story_leaveDecider (tick : Tick β) (setting : Setting β) (frame : Frame) (child : Status) :
    (tick.leaveDecider setting frame child).Ensures fun after =>
      after.machine.command ≠ .invoke ∧
        after.story = tick.story ++ [.left frame.atom after.machine.status] := by
  refine (ensures_true _).bind fun ⟨_, frames⟩ _ => ensures_pure.mpr ⟨?_, ?_⟩
  · simp only [proceed]
    split <;> exact Command.noConfusion
  · let left : Tick β :=
      { tick with machine.status := frame.result child, machine.frames := frames }
    have told := (left.log (.deciderLeft frame.atom (frame.result child))).quiet_notify setting
      frame.atom (.leave ||| .fromBottom)
    refine Eq.trans told ?_
    rw [log, story_emit]
    simp only [proceed, machine_notify]
    rfl

theorem quiet_nextChild (tick : Tick β) (setting : Setting β) (frame : Frame) :
    (tick.nextChild setting frame).Ensures fun after =>
      after.machine.command = .invoke ∧ tick.Quiet after := by
  let moved : Tick β := { tick with machine.frames := tick.machine.frames.setTop frame }
  have noticed : tick.Quiet (moved.notify setting frame.atom (Flags.leave ||| Flags.fromTop)) :=
    moved.quiet_notify setting frame.atom _
  refine (quiet_drain _ setting).bind fun drained quiet => ensures_pure.mpr ⟨rfl, ?_⟩
  exact Eq.trans quiet noticed

/-- To take note of a status, a decider stays the same decider. -/
theorem absorb_atom (machine : Machine) (frame : Frame) :
    (machine.absorb frame).Ensures fun absorbed => absorbed.1.atom = frame.atom := by
  refine (machine.absorb_notes frame).mono fun absorbed notes => ?_
  cases notes <;> rfl

section
variable (step : tick.step setting = .ok after)
include step

/-- A step at an action tells of its visit and of the status that it delivers. -/
theorem story_visit (command : tick.machine.command = .invoke) {leaf : Leaf}
    (stands : setting.shape.atom? tick.machine.cursor = some leaf.atom) :
    after.story = tick.story ++
      [.entered tick.machine.cursor, .left tick.machine.cursor after.machine.status] := by
  simp only [Tick.step, command, Tick.invoke, log, emit, stands] at step
  have told := story_visitAtom _ setting _ leaf after step
  rw [told, quiet_notify]
  simp [story, Event.happening?]

/-- A step at a decider tells of its entry. -/
theorem story_enter (command : tick.machine.command = .invoke) {rule : Rule} {stop : Nat}
    (stands : setting.shape.atom? tick.machine.cursor = some (.decider rule stop)) :
    after.story = tick.story ++ [.entered tick.machine.cursor] := by
  simp only [Tick.step, command, Tick.invoke, log, emit, stands, visitAtom] at step
  have told := quiet_enterDecider _ setting _ after step
  rw [told, quiet_notify]
  simp [story, Event.happening?]

/-- A step on the way up tells of the decider on top, if that is left. -/
theorem story_resume (command : tick.machine.command = .resume) {frame : Frame}
    (top : tick.machine.frames.top? = some frame) :
    after.story = tick.story ++
      if after.machine.command = .invoke then [] else [.left frame.atom after.machine.status] := by
  let started := tick.log (.stepStarted .resume tick.machine.cursor tick.machine.status)
  let noticed := started.notify setting frame.atom (.enter ||| .fromBottom)
  have quiet : tick.Quiet noticed :=
    Quiet.trans (quiet_emit rfl) (started.quiet_notify setting frame.atom _)
  have top : started.machine.frames.top? = some frame := top
  have resumes : (started.resume setting).Ensures fun after => after.story = tick.story ++
      if after.machine.command = .invoke then [] else [.left frame.atom after.machine.status] := by
    simp only [Tick.resume, top]
    refine (absorb_atom noticed.machine frame).bind fun ⟨absorbed, machine⟩ same => ?_
    simp only at same ⊢
    split
    · refine (story_leaveDecider _ setting absorbed _).mono fun after ⟨left, told⟩ => ?_
      rw [told, if_neg left, same]
      exact congrArg (· ++ _) quiet
    · refine (quiet_nextChild _ setting absorbed).mono fun after ⟨next, more⟩ => ?_
      rw [if_pos next, List.append_nil]
      exact Quiet.trans quiet more
  simp only [Tick.step, command] at step
  exact resumes after step

theorem quiet_closed (command : tick.machine.command = .resume)
    (top : tick.machine.frames.top? = none) : tick.Quiet after := by
  simp only [Tick.step, command, Tick.resume, log, emit, top] at step
  obtain rfl := Except.ok.inj step
  simp [Quiet, story, proceed, Event.happening?]

theorem quiet_cleanup (command : tick.machine.command = .cleanup) : tick.Quiet after := by
  simp only [Tick.step, command] at step
  let started := tick.log (.stepStarted .cleanup tick.machine.cursor tick.machine.status)
  have cleans : (started.cleanup setting).Ensures tick.Quiet := by
    refine (started.quiet_drain setting).bind fun drained quiet => ?_
    refine drained.quiet_reorder.bind fun ordered more => (ensures_true _).bind fun _ _ => ?_
    exact ensures_pure.mpr (Quiet.trans (quiet_emit rfl) (Quiet.trans quiet more))
  exact cleans after step

end

/-- What follows the last step is quiet. -/
theorem quiet_finish (tick : Tick β) (setting : Setting β) :
    (tick.finish setting).Ensures fun outcome => tick.Quiet outcome.tick := by
  unfold finish
  simp only
  split
  · exact ensures_pure.mpr rfl
  · exact (ensures_true _).bind fun actor _ => ensures_pure.mpr (quiet_emit rfl)

end Tick

end BehaviorTree
