import BehaviorTree.Machine.Step
import BehaviorTree.Proofs.Simulation.Mirror

namespace BehaviorTree
open Machine
variable {β : Type} {scene : Scene β} {capacities : Capacities} {earlier : List Call}
  {position : Nat} {tick : Tick β} {course : Course β}

/-- The frame of a decider as it is opened. -/
def Course.frame (course : Course β) (scene : Scene β) (index stop : Nat) : Rule → Frame
  | .sequence => ⟨index, stop, course.continuations.length, course.launches.length,
      .sequence (scene.start index stop)⟩
  | .dynamicPriority =>
      ⟨index, stop, course.continuations.length, course.launches.length, .dynamicPriority⟩
  | .concurrent =>
      ⟨index, stop, course.continuations.length, course.launches.length, .concurrent .success⟩

/-- Where the traversal stands. -/
structure Stands (tick : Tick β) (command : Command) (cursor : Nat) (frames : List Frame) :
    Prop where
  command : tick.machine.command = command
  cursor : tick.machine.cursor = cursor
  frames : tick.machine.frames.contents.toList = frames

/-- A visit of an action leaves the traversal where it stands, and comes to what the course comes
to. -/
def Visits (scene : Scene β) (capacities : Capacities) (earlier : List Call) (position : Nat)
    (leaf : Leaf) (tick : Tick β) (course : Course β) (visit : Checked (Status × Tick β)) : Prop :=
  ∃ after, visit = .ok ((course.visit scene position leaf).1, after) ∧
    SameControl tick.machine after.machine ∧
    Mirror scene capacities earlier (position + 1) after (course.visit scene position leaf).2

namespace Mirror

/-- What is requested depends on whether the action was active. -/
theorem requestOf (mirror : Mirror scene capacities earlier position tick course) (atom : Nat) :
    ∃ asked, tick.requestOf atom (scene.remembered atom) =
        (if scene.wasActive atom then .running else .launch, asked) ∧
      SameControl tick.machine asked.machine ∧
      Mirror scene capacities earlier position asked course := by
  unfold Tick.requestOf Scene.wasActive
  cases scene.remembered atom with
  | none => exact ⟨tick, rfl, .refl _, mirror⟩
  | some previous =>
    by_cases active : previous.isActive = true
    · exact ⟨tick, by simp [active], .refl _, mirror⟩
    · exact ⟨tick.log (.staleStatus atom previous), by simp [active], .refl _, mirror.log _⟩

theorem logReturned (mirror : Mirror scene capacities earlier position tick course) (atom : Nat)
    (returned : Status) :
    SameControl tick.machine (tick.logReturned atom returned).machine ∧
      Mirror scene capacities earlier position (tick.logReturned atom returned) course := by
  cases returned with
  | launch => exact ⟨.refl _, mirror.log _⟩
  | cancel => exact ⟨.refl _, mirror.log _⟩
  | running => exact ⟨.refl _, mirror⟩
  | success => exact ⟨.refl _, mirror⟩
  | fail => exact ⟨.refl _, mirror⟩

section
variable (mirror : Mirror scene capacities earlier position tick course) (ready : scene.Ready)
  (covers : capacities.covers scene.shape.needs = true) (sound : Sound scene position course)
  (settled : course.pending.isEmpty = true)
include mirror ready covers sound settled

theorem visitImmediate {function : Nat}
    (stands : scene.shape.atom? position = some (.immediate function)) :
    Visits scene capacities earlier position (.immediate function) tick course
      (tick.visitImmediate scene.toSetting position function) := by
  have visited : Sound scene (position + 1) (course.visit scene position (.immediate function)).2 :=
    sound.visit stands settled
  have room := Nat.le_trans visited.outstanding_le
    ((Capacities.covers_iff _ _).mp covers .outstanding)
  obtain ⟨action, known⟩ := Option.isSome_iff_exists.mp (scene.shape.function?_isSome stands)
  obtain ⟨read, taken, read_control, read_mirror⟩ := mirror.takeOutstanding ready sound.frontier_le
  obtain ⟨asked, asks, asked_control, asked_mirror⟩ := read_mirror.requestOf position
  obtain ⟨returned, called, left, calls, call_eq, called_control, called_mirror⟩ :=
    asked_mirror.call position known (if scene.wasActive position then .running else .launch)
  obtain ⟨logged_control, logged_mirror⟩ := called_mirror.logReturned position returned
  have control :=
    ((read_control.trans asked_control).trans called_control).trans logged_control
  unfold Visits
  simp only [Course.visit, Course.deliver, call_eq] at room ⊢
  simp only [Tick.visitImmediate, Tick.answerImmediate, taken, asks, known, calls, bind,
    Except.bind, pure, Except.pure]
  by_cases running : returned.normalized = .running
  · simp only [running, if_true] at room ⊢
    obtain ⟨after, pushed, after_control, after_mirror⟩ :=
      logged_mirror.pushOutstanding position .running room
    rw [pushed]
    exact ⟨_, rfl, control.trans after_control, after_mirror.later (Nat.le_succ _)⟩
  · simp only [running, if_false]
    exact ⟨_, rfl, control, logged_mirror.later (Nat.le_succ _)⟩

theorem visitDeferred {action resource : Nat}
    (stands : scene.shape.atom? position = some (.deferred action resource)) :
    Visits scene capacities earlier position (.deferred action resource) tick course
      (tick.visitDeferred position action resource) := by
  have visited : Sound scene (position + 1)
      (course.visit scene position (.deferred action resource)).2 := sound.visit stands settled
  have room := Nat.le_trans visited.outstanding_le
    ((Capacities.covers_iff _ _).mp covers .outstanding)
  have requests_room := Nat.le_trans visited.requests_le
    ((Capacities.covers_iff _ _).mp covers .requests)
  obtain ⟨read, taken, read_control, read_mirror⟩ := mirror.takeOutstanding ready sound.frontier_le
  unfold Visits
  simp only [Course.visit, Course.deliver] at room requests_room ⊢
  simp only [Tick.visitDeferred, Tick.answerDeferred, taken, bind, Except.bind, pure, Except.pure]
  cases remembered : scene.remembered position with
  | none =>
    simp only [remembered] at room requests_room ⊢
    obtain ⟨after, launched, after_control, after_mirror⟩ :=
      read_mirror.launch position action resource room requests_room
    rw [launched]
    exact ⟨_, rfl, read_control.trans after_control, after_mirror.later (Nat.le_succ _)⟩
  | some status =>
    simp only [remembered] at room ⊢
    by_cases active : status.isActive = true
    · simp only [active, if_true] at room ⊢
      obtain ⟨after, pushed, after_control, after_mirror⟩ :=
        read_mirror.pushOutstanding position .running room
      refine ⟨after, ?_, read_control.trans after_control, after_mirror.later (Nat.le_succ _)⟩
      cases status with
      | launch => simp only [pushed]
      | running => simp only [pushed]
      | _ => cases active
    · rw [Bool.not_eq_true] at active
      simp only [active, Bool.false_eq_true, if_false]
      cases status with
      | success => exact ⟨_, rfl, read_control, read_mirror.later (Nat.le_succ _)⟩
      | fail => exact ⟨_, rfl, read_control, read_mirror.later (Nat.le_succ _)⟩
      | cancel => exact ⟨_, rfl, read_control, (read_mirror.log _).later (Nat.le_succ _)⟩
      | _ => cases active

theorem visitPersistent {slot : Nat}
    (stands : scene.shape.atom? position = some (.persistent slot)) :
    Visits scene capacities earlier position (.persistent slot) tick course
      (tick.visitPersistent scene.toSetting position slot) := by
  have visited : Sound scene (position + 1) (course.visit scene position (.persistent slot)).2 :=
    sound.visit stands settled
  have room := Nat.le_trans visited.outstanding_le
    ((Capacities.covers_iff _ _).mp covers .outstanding)
  obtain ⟨read, taken, read_control, read_mirror⟩ := mirror.takeOutstanding ready sound.frontier_le
  obtain ⟨found, hit, found_control, found_mirror⟩ := read_mirror.takeSlot stands
  have control := read_control.trans found_control
  have slots : found.actor.slots = scene.actor.slots := by rw [found_mirror.actor]
  unfold Visits
  simp only [Course.visit, Course.deliver] at room ⊢
  simp only [Tick.visitPersistent, Tick.answerPersistent, taken, hit, slots, require,
    beq_self_eq_true, if_true, bind, Except.bind, pure, Except.pure]
  cases stored : scene.actor.slots[slot]? with
  | none => exact ⟨_, rfl, control, found_mirror⟩
  | some status =>
    simp only [stored] at room ⊢
    by_cases active : status.isActive = true
    · simp only [active, if_true] at room ⊢
      obtain ⟨after, pushed, after_control, after_mirror⟩ :=
        found_mirror.pushOutstanding position status room
      refine ⟨after, ?_, control.trans after_control, after_mirror⟩
      cases status with
      | launch => simp only [pushed]
      | running => simp only [pushed]
      | _ => cases active
    · rw [Bool.not_eq_true] at active
      simp only [active, Bool.false_eq_true, if_false]
      cases status with
      | success => exact ⟨_, rfl, control, found_mirror⟩
      | fail => exact ⟨_, rfl, control, found_mirror⟩
      | cancel => exact ⟨_, rfl, control, found_mirror⟩
      | _ => cases active

/-- An action comes to what the course comes to, whichever kind it is of. -/
theorem visitAtom {leaf : Leaf} (stands : scene.shape.atom? position = some leaf.atom) :
    ∃ after, tick.visitAtom scene.toSetting position leaf.atom = .ok after ∧
      Stands after .resume (position + 1) tick.machine.frames.contents.toList ∧
      after.machine.status = (course.visit scene position leaf).1 ∧
      Mirror scene capacities earlier (position + 1) after
        (course.visit scene position leaf).2 := by
  have delivered {visited : Tick β} {result : Status} {left : Course β}
      (control : SameControl tick.machine visited.machine)
      (visited_mirror : Mirror scene capacities earlier (position + 1) visited left) :
      Stands (visited.deliver scene.toSetting position result) .resume (position + 1)
          tick.machine.frames.contents.toList ∧
        (visited.deliver scene.toSetting position result).machine.status = result ∧
        Mirror scene capacities earlier (position + 1)
          (visited.deliver scene.toSetting position result) left := by
    obtain ⟨-, -, -, frames⟩ := control
    refine ⟨⟨rfl, ?_, ?_⟩, ?_, ?_⟩
    · simp [Tick.deliver, Tick.proceed, Tick.machine_notify]
    · simp [Tick.deliver, Tick.proceed, Tick.machine_notify, Tick.log, Tick.emit, frames]
    · simp [Tick.deliver, Tick.proceed, Tick.machine_notify]
    · exact (((visited_mirror.log _).steer _ _ _ rfl).notify _ _ _).proceed _
  cases leaf with
  | immediate function =>
    obtain ⟨visited, visits, control, visited_mirror⟩ :=
      mirror.visitImmediate ready covers sound settled stands
    obtain ⟨standing, status, after_mirror⟩ := delivered control visited_mirror
    refine ⟨_, ?_, standing, status, after_mirror⟩
    simp only [Leaf.atom, Tick.visitAtom, visits, bind, Except.bind, pure, Except.pure]
  | deferred action resource =>
    obtain ⟨visited, visits, control, visited_mirror⟩ :=
      mirror.visitDeferred ready covers sound settled stands
    obtain ⟨standing, status, after_mirror⟩ := delivered control visited_mirror
    refine ⟨_, ?_, standing, status, after_mirror⟩
    simp only [Leaf.atom, Tick.visitAtom, visits, bind, Except.bind, pure, Except.pure]
  | persistent slot =>
    obtain ⟨visited, visits, control, visited_mirror⟩ :=
      mirror.visitPersistent ready covers sound settled stands
    obtain ⟨standing, status, after_mirror⟩ := delivered control visited_mirror
    refine ⟨_, ?_, standing, status, after_mirror⟩
    simp only [Leaf.atom, Tick.visitAtom, visits, bind, Except.bind, pure, Except.pure]

/-- A step at an action. -/
theorem step_action {leaf : Leaf} {frames : List Frame}
    (stands : scene.shape.atom? position = some leaf.atom)
    (standing : Stands tick .invoke position frames) :
    ∃ after, tick.step scene.toSetting = .ok after ∧
      Stands after .resume (position + 1) frames ∧
      after.machine.status = (course.visit scene position leaf).1 ∧
      Mirror scene capacities earlier (position + 1) after
        (course.visit scene position leaf).2 := by
  have noticed := ((mirror.log (.stepStarted tick.machine.command tick.machine.cursor
    tick.machine.status)).notify scene.toSetting position (.enter ||| .fromTop))
  obtain ⟨after, visited, visited_standing, status, after_mirror⟩ :=
    noticed.visitAtom ready covers sound settled stands
  refine ⟨after, ?_, ?_, status, after_mirror⟩
  · rw [← visited]
    simp only [Tick.step, standing.command, Tick.invoke, Tick.log, Tick.emit, standing.cursor,
      stands]
  · rw [Tick.machine_notify] at visited_standing
    rw [← standing.frames]
    exact visited_standing

end

/-- A sequence is resumed where the actor remembers; other deciders start with their first child. -/
theorem resumption (mirror : Mirror scene capacities earlier position tick course)
    (ready : scene.Ready) (rule : Rule) (stop : Nat) (inside : position + 1 < Word.bound32) :
    ∃ read, tick.resumption (tick.frameFor position rule stop) =
        .ok (scene.entrance position stop rule, course.frame scene position stop rule, read) ∧
      SameControl tick.machine read.machine ∧
      Mirror scene capacities earlier (position + 1) read course := by
  have continuations : tick.machine.continuations.count = course.continuations.length := by
    rw [← Buffer.length_contents, mirror.continuations]
  have launches : tick.machine.requests.launchCount = course.launches.length := by
    rw [← RequestQueue.size_launches, ← Array.length_toList, mirror.launches]
  have first : (tick.frameFor position rule stop).firstChild = .ok (position + 1) := if_pos inside
  cases rule with
  | sequence =>
    obtain ⟨read, taken, control, read_mirror⟩ := mirror.takeContinuation ready
    have taken : tick.takeContinuation (tick.frameFor position .sequence stop).atom = _ := taken
    simp only [Tick.resumption, first, taken, bind, Except.bind, pure, Except.pure]
    simp only [Tick.frameFor, Tick.resumeAt, Frame.initialProgress, continuations, launches,
      Scene.entrance, Course.frame, Scene.start]
    cases scene.actor.continuations.find? position with
    | none => exact ⟨read, rfl, control, read_mirror⟩
    | some child =>
      by_cases inside : position + 1 ≤ child ∧ child < stop
      · exact ⟨read, by simp only [inside, and_self, if_true], control, read_mirror⟩
      · exact ⟨read.log _, by simp only [inside, if_false]; rfl, control, read_mirror.log _⟩
  | dynamicPriority =>
    refine ⟨tick, ?_, .refl _, mirror.later (Nat.le_succ position)⟩
    simp only [Tick.resumption, first, bind, Except.bind, pure, Except.pure]
    simp only [Tick.frameFor, Frame.initialProgress, continuations, launches, Scene.entrance,
      Course.frame]
  | concurrent =>
    refine ⟨tick, ?_, .refl _, mirror.later (Nat.le_succ position)⟩
    simp only [Tick.resumption, first, bind, Except.bind, pure, Except.pure]
    simp only [Tick.frameFor, Frame.initialProgress, continuations, launches, Scene.entrance,
      Course.frame]

/-- A step at a decider opens its frame and goes on with the child at its entrance. -/
theorem step_decider (mirror : Mirror scene capacities earlier position tick course)
    (ready : scene.Ready) {rule : Rule} {stop : Nat} {frames : List Frame}
    (room : frames.length < capacities.frames)
    (stands : scene.shape.atom? position = some (.decider rule stop)) (child : position + 1 < stop)
    (standing : Stands tick .invoke position frames) :
    ∃ after, tick.step scene.toSetting = .ok after ∧
      Stands after .invoke (scene.entrance position stop rule)
        (frames ++ [course.frame scene position stop rule]) ∧
      Mirror scene capacities earlier (position + 1) after course := by
  have inside : position < scene.shape.size := by
    rw [← Shape.atom?_isSome_iff, stands]
    rfl
  have bounded : position + 1 < Word.bound32 := by
    have := scene.shape.size_lt
    omega
  let noticed := (tick.log (.stepStarted tick.machine.command tick.machine.cursor
    tick.machine.status)).notify scene.toSetting position (.enter ||| .fromTop)
  have machine_eq : noticed.machine = tick.machine := Tick.machine_notify _ _ _ _
  have noticed_mirror : Mirror scene capacities earlier position noticed course :=
    (mirror.log _).notify _ _ _
  obtain ⟨read, resumes, control, read_mirror⟩ :=
    (noticed_mirror.steer noticed.machine.command .fail noticed.machine.cursor rfl).resumption
      ready rule stop bounded
  obtain ⟨-, -, -, read_frames⟩ := control
  have read_frames : read.machine.frames = tick.machine.frames := by
    rw [read_frames, machine_eq]
  have free : read.machine.frames.count < read.machine.frames.capacity := by
    rw [read_frames, ← Buffer.length_contents, standing.frames, mirror.sized.frames,
      mirror.capacities]
    exact room
  obtain ⟨pushed_frames, pushed, contents, capacity⟩ :=
    Buffer.push_room free (course.frame scene position stop rule)
  have notFull : noticed.machine.frames.isFull = false := by
    rw [machine_eq, ← read_frames]
    exact Buffer.isFull_eq_false free
  have children : (noticed.frameFor position rule stop).hasChildren = .ok true := by
    have first : (noticed.frameFor position rule stop).firstChild = .ok (position + 1) :=
      if_pos bounded
    have more : decide (position + 1 < (noticed.frameFor position rule stop).stop) = true :=
      decide_eq_true child
    simp only [Frame.hasChildren, first, bind, Except.bind, pure, Except.pure, more]
  let opened := { read with machine := { read.machine with
    frames := pushed_frames, cursor := scene.entrance position stop rule } }
  have opened_mirror : Mirror scene capacities earlier (position + 1) opened course :=
    read_mirror.steer _ _ _ capacity
  refine ⟨(opened.notify scene.toSetting position (.leave ||| .fromTop)).proceed .invoke, ?_,
    ⟨rfl, ?_, ?_⟩, (opened_mirror.notify _ _ _).proceed _⟩
  · have frame_atom : (course.frame scene position stop rule).atom = position := by
      cases rule <;> rfl
    have entered : tick.step scene.toSetting =
        noticed.enterDecider scene.toSetting (noticed.frameFor position rule stop) := by
      simp only [Tick.step, standing.command, Tick.invoke, Tick.log, Tick.emit, standing.cursor,
        stands, Tick.visitAtom, noticed]
    have resumed : noticed.failing.resumption
        (noticed.frameFor position rule stop) = .ok (scene.entrance position stop rule,
          course.frame scene position stop rule, read) := resumes
    rw [entered]
    simp only [Tick.enterDecider, Tick.openAt, notFull, Bool.false_eq_true, if_false, children,
      require, if_true, bind, Except.bind, pure, Except.pure, resumed, pushed, frame_atom, opened]
  · simp [Tick.proceed, Tick.machine_notify, opened]
  · simp only [Tick.proceed, Tick.machine_notify, opened]
    rw [contents, read_frames, standing.frames]

end Mirror

end BehaviorTree
