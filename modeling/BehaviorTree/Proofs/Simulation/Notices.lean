import BehaviorTree.Proofs.Course.Passages
import BehaviorTree.Proofs.Simulation.Lingering

namespace BehaviorTree
open Course
variable {β : Type}

/-- What an event shows to a monitor. -/
def Event.notice? : Event β → Option Notice
  | .noticed atom flags moment => some ⟨atom, flags, moment.machine.frames.count⟩
  | .called _ _ _ _ | .logged _ => none

/-- A minor event shows nothing. -/
theorem Event.notice?_of_isMinor {event : Event β} (minor : event.isMinor = true) :
    event.notice? = none := by
  cases event with
  | called | logged => rfl
  | noticed => cases minor

/-- Without a monitor, nothing is shown. -/
def Setting.shown (setting : Setting β) (notices : List Notice) : List Notice :=
  if setting.monitored then notices else []

@[simp] theorem Setting.shown_nil (setting : Setting β) : setting.shown [] = [] := ite_self _

theorem Setting.shown_append (setting : Setting β) (first second : List Notice) :
    setting.shown (first ++ second) = setting.shown first ++ setting.shown second := by
  unfold shown
  split <;> rfl

theorem Notice.ofCancels_append (depth : Nat) (first second : List Nat) :
    ofCancels depth (first ++ second) = ofCancels depth first ++ ofCancels depth second :=
  List.flatMap_append

namespace Tick
variable {tick middle after : Tick β} {setting : Setting β} {first second : List Notice}

/-- What the monitor has been shown so far, in order. -/
def notices (tick : Tick β) : List Notice := tick.trace.toList.filterMap Event.notice?

/-- An operation shows some notices to the monitor, if there is one. -/
def Shows (setting : Setting β) (notices : List Notice) (tick after : Tick β) : Prop :=
  after.notices = tick.notices ++ setting.shown notices

namespace Shows

/-- Where nothing happens, nothing is shown. -/
theorem of_trace (same : after.trace = tick.trace) : Shows setting [] tick after := by
  rw [Shows, Setting.shown_nil, List.append_nil, notices, same]
  rfl

theorem trans (shows : Shows setting first tick middle) (more : Shows setting second middle after) :
    Shows setting (first ++ second) tick after := by
  rw [Shows, more, shows, Setting.shown_append, List.append_assoc]

theorem silent (shows : Shows setting first tick middle) (silent : Shows setting [] middle after) :
    Shows setting first tick after := by
  have whole := shows.trans silent
  rwa [List.append_nil] at whole

end Shows

theorem shows_log (tick : Tick β) (setting : Setting β) (event : LogEvent) :
    Shows setting [] tick (tick.log event) := by
  simp [Shows, notices, log, emit, Event.notice?]

/-- A monitor is shown which atom is passed, and how many deciders are open. -/
theorem shows_notify (tick : Tick β) (setting : Setting β) (atom : Nat) (flags : Flags) :
    Shows setting [⟨atom, flags, tick.machine.frames.count⟩] tick
      (tick.notify setting atom flags) := by
  unfold notify Shows Setting.shown
  split
  · simp [notices, emit, Event.notice?]
  · exact (List.append_nil _).symm

/-- What the monitor is shown last, it is shown as the machine then stands. -/
theorem shows_notify_proceed (tick : Tick β) (setting : Setting β) (atom : Nat) (flags : Flags)
    (command : Command) :
    Shows setting
      [⟨atom, flags, ((tick.notify setting atom flags).proceed command).machine.frames.count⟩] tick
      ((tick.notify setting atom flags).proceed command) := by
  have machine := tick.machine_notify setting atom flags
  have same : ((tick.notify setting atom flags).proceed command).machine.frames.count =
      tick.machine.frames.count := congrArg (fun machine => machine.frames.count) machine
  rw [same]
  exact tick.shows_notify setting atom flags

open Checked

theorem Calm.shows (calm : tick.Calm after) (setting : Setting β) :
    Shows setting [] tick after := by
  rw [Shows, Setting.shown_nil, List.append_nil]
  exact calm.filterMap_trace Event.notice?_of_isMinor

theorem Calm.frames (calm : tick.Calm after) : after.machine.frames = tick.machine.frames := by
  obtain ⟨_, _, _, _, machine, -⟩ := calm.machine
  rw [machine]

/-- A visit of an action shows nothing until it delivers, and opens no decider. -/
theorem Attends.shows {atom : Nat} (attends : tick.Attends Calm atom after) (setting : Setting β) :
    Shows setting [] tick after ∧ after.machine.frames = tick.machine.frames := by
  obtain ⟨read, taken, middle, calm, stays⟩ := attends
  obtain ⟨-, cursor, -, passed⟩ := tick.takeOutstanding_eq atom read taken
  rw [passed] at calm
  have shows : Shows setting [] tick middle := calm.shows setting
  have frames : middle.machine.frames = tick.machine.frames := calm.frames
  obtain rfl | ⟨status, pushed⟩ := stays
  · exact ⟨shows, frames⟩
  · obtain ⟨outstanding, rfl, -⟩ := middle.pushOutstanding_eq atom status after pushed
    exact ⟨shows.trans (.of_trace rfl), frames⟩

/-- The cancellation of an atom is shown as it begins and as it ends. -/
theorem shows_cancelAt (tick : Tick β) (setting : Setting β) {index : Nat}
    (inside : (setting.shape.atom? index).isSome = true) :
    (tick.cancelAt setting index).Ensures
      (Shows setting (Notice.ofCancels tick.machine.frames.count [index]) tick) := by
  obtain ⟨atom, stands⟩ := Option.isSome_iff_exists.mp inside
  let begun := tick.notify setting index (.cancel ||| .enter)
  have frames : begun.machine.frames = tick.machine.frames := by rw [machine_notify]
  simp only [cancelAt, stands]
  refine (begun.calm_cancelAtom setting index atom).bind fun canceled calm =>
    ensures_pure.mpr ?_
  have ends := canceled.shows_notify setting index (.cancel ||| .leave)
  rw [calm.frames, frames] at ends
  exact ((tick.shows_notify setting index _).trans (calm.shows setting)).trans ends

theorem shows_cancelAll (setting : Setting β) (indices : List Nat) (tick : Tick β)
    (inside : ∀ index ∈ indices, (setting.shape.atom? index).isSome = true) :
    (cancelAll setting indices tick).Ensures
      (Shows setting (Notice.ofCancels tick.machine.frames.count indices) tick) := by
  induction indices generalizing tick with
  | nil => exact ensures_ok.mpr (.of_trace rfl)
  | cons index indices ih =>
    obtain ⟨here, rest⟩ := List.forall_mem_cons.mp inside
    rw [← List.singleton_append, Notice.ofCancels_append]
    have shows := tick.shows_cancelAt setting here
    refine (ensures_self _).bind fun canceled done => ?_
    have lingers := tick.lingers_cancelAt setting index canceled done
    refine (ih canceled rest).mono fun after more => ?_
    rw [lingers.frames] at more
    exact (shows canceled done).trans more

theorem shows_reorder (tick : Tick β) (setting : Setting β) :
    tick.reorder.Ensures (Shows setting [] tick) := by
  refine tick.reorder_reorders.mono fun after reorders => ?_
  cases reorders with
  | silently => exact .of_trace rfl
  | reporting => exact (Shows.of_trace rfl).trans (shows_log _ setting _)

/-- What follows the last step shows nothing. -/
theorem shows_finish (tick : Tick β) (setting : Setting β) :
    (tick.finish setting).Ensures fun outcome => Shows setting [] tick outcome.tick := by
  unfold finish
  simp only
  split
  · exact ensures_pure.mpr (.of_trace rfl)
  · exact (ensures_true _).bind fun actor _ =>
      ensures_pure.mpr ((Shows.of_trace rfl).trans (shows_log _ setting _))

theorem shows_deliver (tick : Tick β) (setting : Setting β) (atom : Nat) (result : Status) :
    Shows setting [.left atom tick.machine.frames.count] tick
      (tick.deliver setting atom result) := by
  let logged := tick.log (.actionVisited atom result)
  let moved : Tick β :=
    { logged with machine := { logged.machine with status := result, cursor := atom + 1 } }
  have shows := moved.shows_notify setting atom (.leave ||| .fromBottom)
  exact (tick.shows_log setting _).trans shows

/-- A decider that is entered shows that it is passed on the way down. -/
theorem shows_enterDecider (tick : Tick β) (setting : Setting β) (frame : Frame) :
    (tick.enterDecider setting frame).Ensures fun after => after.machine.command ≠ .error →
      Shows setting [.down frame.atom after.machine.frames.count] tick after := by
  unfold enterDecider
  split
  · exact ensures_pure.mpr fun goes => absurd rfl goes
  · refine (ensures_true _).bind fun _ _ => (ensures_true _).bind fun _ _ => ?_
    refine (calm_resumption _ frame).bind fun ⟨start, resumed, read⟩ ⟨calm, _, _, same, _⟩ => ?_
    refine (ensures_true _).bind fun frames _ => ensures_pure.mpr fun _ => ?_
    let moved : Tick β := { read with machine.frames := frames, machine.cursor := start }
    have same : resumed.atom = frame.atom := same
    have silent : Shows setting [] tick moved := calm.shows setting
    rw [← same]
    exact silent.trans (moved.shows_notify_proceed setting resumed.atom _ _)

theorem shows_leaveDecider (tick : Tick β) (setting : Setting β) (frame : Frame) (child : Status) :
    (tick.leaveDecider setting frame child).Ensures fun after =>
      Shows setting [.left frame.atom after.machine.frames.count] tick after := by
  refine (ensures_true _).bind fun ⟨_, frames⟩ _ => ensures_pure.mpr ?_
  let left : Tick β := { tick with machine.status := frame.result child, machine.frames := frames }
  let logged := left.log (.deciderLeft frame.atom (frame.result child))
  have silent : Shows setting [] tick logged :=
    Shows.trans (.of_trace rfl) (left.shows_log setting _)
  exact silent.trans (logged.shows_notify_proceed setting frame.atom _ _)

/-- The decider on top is passed on the way up, and shows its exit if it is left. -/
theorem shows_resume (tick : Tick β) (setting : Setting β) {frame : Frame}
    (top : tick.machine.frames.top? = some frame) :
    (tick.resume setting).Ensures fun after => after.machine.command ≠ .invoke →
      Shows setting [.up frame.atom tick.machine.frames.count,
        .left frame.atom after.machine.frames.count] tick after := by
  let noticed := tick.notify setting frame.atom (.enter ||| .fromBottom)
  have begins : Shows setting [.up frame.atom tick.machine.frames.count] tick noticed :=
    tick.shows_notify setting frame.atom _
  simp only [Tick.resume, top]
  refine (absorb_atom noticed.machine frame).bind fun result same => ?_
  obtain ⟨absorbed, machine⟩ := result
  have same : absorbed.atom = frame.atom := same
  simp only
  split
  · refine (shows_leaveDecider _ setting absorbed _).mono fun after shows _ => ?_
    rw [same] at shows
    exact begins.trans shows
  · exact (quiet_nextChild _ setting absorbed).mono fun after next leaves => absurd next.1 leaves

section
variable (step : tick.step setting = .ok after)
include step

/-- A step at an action shows its entry and its exit. -/
theorem shows_visit (command : tick.machine.command = .invoke) {leaf : Leaf}
    (stands : setting.shape.atom? tick.machine.cursor = some leaf.atom) :
    Shows setting [.entered tick.machine.cursor tick.machine.frames.count,
      .left tick.machine.cursor tick.machine.frames.count] tick after := by
  let started := tick.log (.stepStarted .invoke tick.machine.cursor tick.machine.status)
  let entered := started.notify setting tick.machine.cursor (.enter ||| .fromTop)
  have acts : leaf.atom.isDecider = false := by cases leaf <;> rfl
  have begins : Shows setting [.entered tick.machine.cursor tick.machine.frames.count] tick
      entered := (tick.shows_log setting _).trans (started.shows_notify setting _ _)
  have stands : setting.shape.atom? started.machine.cursor = some leaf.atom := stands
  simp only [Tick.step, command, Tick.invoke, stands, started] at step
  obtain ⟨visited, result, attends, rfl⟩ := entered.attends_visitAtom setting _ acts after step
  obtain ⟨silent, frames⟩ := attends.shows setting
  have same : entered.machine.frames = tick.machine.frames := by rw [machine_notify]; rfl
  have ends := visited.shows_deliver setting tick.machine.cursor result
  rw [frames, same] at ends
  exact (begins.trans silent).trans ends

/-- A step at a decider shows its entry, and that it is passed on the way down. -/
theorem shows_enter (command : tick.machine.command = .invoke) {rule : Rule} {stop : Nat}
    (stands : setting.shape.atom? tick.machine.cursor = some (.decider rule stop))
    (goes : after.machine.command ≠ .error) :
    Shows setting [.entered tick.machine.cursor tick.machine.frames.count,
      .down tick.machine.cursor after.machine.frames.count] tick after := by
  let started := tick.log (.stepStarted .invoke tick.machine.cursor tick.machine.status)
  let entered := started.notify setting tick.machine.cursor (.enter ||| .fromTop)
  have begins : Shows setting [.entered tick.machine.cursor tick.machine.frames.count] tick
      entered := (tick.shows_log setting _).trans (started.shows_notify setting _ _)
  have stands : setting.shape.atom? started.machine.cursor = some (.decider rule stop) := stands
  simp only [Tick.step, command, Tick.invoke, stands, started, visitAtom] at step
  exact begins.trans (entered.shows_enterDecider setting _ after step goes)

/-- A step on the way up by which a decider is left shows that it is passed, and its exit. -/
theorem shows_leave (command : tick.machine.command = .resume) {frame : Frame}
    (top : tick.machine.frames.top? = some frame) (leaves : after.machine.command ≠ .invoke) :
    Shows setting [.up frame.atom tick.machine.frames.count,
      .left frame.atom after.machine.frames.count] tick after := by
  let started := tick.log (.stepStarted .resume tick.machine.cursor tick.machine.status)
  have top : started.machine.frames.top? = some frame := top
  simp only [Tick.step, command] at step
  exact (tick.shows_log setting _).trans (started.shows_resume setting top after step leaves)

/-- Where no decider is open, a step on the way up shows nothing. -/
theorem shows_closed (command : tick.machine.command = .resume)
    (top : tick.machine.frames.top? = none) : Shows setting [] tick after := by
  simp only [Tick.step, command, Tick.resume, log, emit, top] at step
  obtain rfl := Except.ok.inj step
  exact tick.shows_log setting (.stepStarted .resume tick.machine.cursor tick.machine.status)

end

end Tick

namespace Mirror
variable {scene : Scene β} {capacities : Capacities} {earlier : List Call} {position : Nat}
  {tick after : Tick β} {course : Course β}
  (mirror : Mirror scene capacities earlier position tick course)
  (ready : scene.Ready) (sound : Sound scene position course)
include mirror ready sound

/-- A drain shows what the course cancels. -/
theorem shows_drain : (tick.drain scene.toSetting).Ensures
    (Tick.Shows scene.toSetting
      (Notice.ofCancels tick.machine.frames.count (course.due scene)) tick) := by
  rw [Course.due]
  by_cases empty : course.pending.isEmpty = true
  · rw [if_pos empty]
    simp only [Tick.drain, mirror.pending, empty, if_true]
    exact Checked.ensures_pure.mpr (.of_trace rfl)
  · rw [if_neg empty]
    rw [Bool.not_eq_true] at empty
    obtain ⟨cursor, kept, -, -, -, drain_eq⟩ := mirror.drain_eq ready sound empty
    rw [drain_eq]
    have inside : ∀ atom ∈ course.toCancel scene, (scene.shape.atom? atom).isSome = true := by
      intro atom member
      obtain ⟨node, stands, -⟩ :=
        (Option.any_eq_true _ _).mp (sound.isAction_of_toCancel ready empty member)
      rw [stands]
      rfl
    refine (Tick.shows_cancelAll scene.toSetting _ _ inside).bind fun canceled shows => ?_
    refine (Checked.ensures_true _).bind fun outstanding _ => Checked.ensures_pure.mpr ?_
    let cut : Tick β := { canceled with machine.outstanding := outstanding }
    have ends : Tick.Shows scene.toSetting [] canceled (cut.log _) :=
      cut.shows_log scene.toSetting
        (.spanDrained course.pending.start course.pending.stop (course.toCancel scene).length)
    exact shows.silent ends

/-- A decider that goes on shows that it is passed on the way down, and what is canceled then. -/
theorem shows_nextChild {outer : List Frame} {top : Frame}
    (held : tick.machine.frames.contents.toList = outer ++ [top]) (frame : Frame) :
    (tick.nextChild scene.toSetting frame).Ensures
      (Tick.Shows scene.toSetting
        (⟨.down frame.atom (outer.length + 1), course.due scene⟩ : Passage).notices tick) := by
  obtain ⟨contents, capacity⟩ := Buffer.setTop_last held frame
  have count : (tick.machine.frames.setTop frame).count = outer.length + 1 := by
    rw [← Buffer.length_contents, contents, List.length_append, List.length_singleton]
  let moved : Tick β := { tick with machine.frames := tick.machine.frames.setTop frame }
  let noticed := moved.notify scene.toSetting frame.atom (.leave ||| .fromTop)
  have begins : Tick.Shows scene.toSetting [.down frame.atom (outer.length + 1)] tick noticed := by
    have shows := moved.shows_notify scene.toSetting frame.atom (.leave ||| .fromTop)
    rw [count] at shows
    exact Tick.Shows.trans (.of_trace rfl) shows
  have noticed_mirror : Mirror scene capacities earlier position noticed course :=
    (mirror.steer tick.machine.command tick.machine.status tick.machine.cursor
      capacity).notify _ _ _
  have frames : noticed.machine.frames.count = outer.length + 1 := by
    rw [Tick.machine_notify]
    exact count
  refine (noticed_mirror.shows_drain ready sound).bind fun drained shows =>
    Checked.ensures_pure.mpr ?_
  rw [frames] at shows
  exact begins.trans shows

/-- A step on the way up by which a decider goes on shows that it is passed both ways, and what is
canceled then. -/
theorem shows_next {outer : List Frame} {frame absorbed : Frame}
    (standing : Stands tick .resume position (outer ++ [frame]))
    (absorbs : tick.machine.absorb frame = .ok (absorbed, tick.machine))
    (more : position < absorbed.stop) (step : tick.step scene.toSetting = .ok after) :
    Tick.Shows scene.toSetting
      (.up frame.atom (outer.length + 1) ::
        (⟨.down frame.atom (outer.length + 1), course.due scene⟩ : Passage).notices) tick
      after := by
  let started := tick.log (.stepStarted .resume tick.machine.cursor tick.machine.status)
  let noticed := started.notify scene.toSetting frame.atom (.enter ||| .fromBottom)
  have count : tick.machine.frames.count = outer.length + 1 := by
    rw [← Buffer.length_contents, standing.frames, List.length_append, List.length_singleton]
  have begins : Tick.Shows scene.toSetting [.up frame.atom (outer.length + 1)] tick noticed := by
    rw [← count]
    exact (tick.shows_log _ _).trans (started.shows_notify _ _ _)
  have machine_eq : noticed.machine = tick.machine := Tick.machine_notify _ _ _ _
  have same : absorbed.atom = frame.atom := Tick.absorb_atom tick.machine frame _ absorbs
  have absorbs : noticed.machine.absorb frame = .ok (absorbed, noticed.machine) := by
    rw [machine_eq, absorbs]
  have held : noticed.machine.frames.contents.toList = outer ++ [frame] := by
    rw [machine_eq, standing.frames]
  have notLeft : ¬absorbed.stop ≤ noticed.machine.cursor := by
    rw [machine_eq, standing.cursor]
    exact Nat.not_le.mpr more
  have top : started.machine.frames.top? = some frame := Buffer.top?_last standing.frames
  have noticed_mirror : Mirror scene capacities earlier position noticed course :=
    (mirror.log _).notify _ _ _
  have goes : tick.step scene.toSetting = noticed.nextChild scene.toSetting absorbed := by
    simp only [Tick.step, standing.command]
    change started.resume scene.toSetting = _
    simp only [Tick.resume, top]
    change (noticed.machine.absorb frame >>= _) = _
    simp only [absorbs, bind, Except.bind]
    rw [if_neg notLeft]
  rw [goes] at step
  have shows := noticed_mirror.shows_nextChild ready sound held absorbed after step
  rw [same] at shows
  exact begins.trans shows

/-- In the clean-up, what is still pending is canceled, with no decider open. -/
theorem shows_cleanup {cursor : Nat} (standing : Stands tick .cleanup cursor [])
    (step : tick.step scene.toSetting = .ok after) :
    Tick.Shows scene.toSetting (Notice.ofCancels 0 (course.due scene)) tick after := by
  let started := tick.log (.stepStarted .cleanup tick.machine.cursor tick.machine.status)
  have count : started.machine.frames.count = 0 := by
    rw [← Buffer.length_contents]
    exact congrArg List.length standing.frames
  have started_mirror : Mirror scene capacities earlier position started course := mirror.log _
  have drains := started_mirror.shows_drain ready sound
  rw [count] at drains
  have cleans : (started.cleanup scene.toSetting).Ensures
      (Tick.Shows scene.toSetting (Notice.ofCancels 0 (course.due scene)) tick) := by
    refine drains.bind fun drained shows => ?_
    refine (drained.shows_reorder scene.toSetting).bind fun ordered silent => ?_
    refine (Checked.ensures_true _).bind fun _ _ => Checked.ensures_pure.mpr ?_
    exact ((tick.shows_log scene.toSetting _).trans shows).silent silent
  simp only [Tick.step, standing.command] at step
  exact cleans after step

end Mirror

end BehaviorTree
