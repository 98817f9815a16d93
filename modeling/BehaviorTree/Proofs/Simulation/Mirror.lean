import BehaviorTree.Proofs.Course.Room
import BehaviorTree.Proofs.Ordered.Cursor
import BehaviorTree.Proofs.Simulation.Story
import BehaviorTree.Proofs.Storage.Room

namespace BehaviorTree
open Ordered Machine
variable {β : Type}

namespace Machine

/-- The buffers of a machine are as large as it says. -/
def Sized (machine : Machine) : Prop :=
  machine.frames.capacity = machine.capacities.frames ∧
    machine.continuations.capacity = machine.capacities.continuations ∧
    machine.outstanding.capacity = machine.capacities.outstanding ∧
    machine.changes.capacity = machine.capacities.slotChanges ∧
    machine.requests.capacity = machine.capacities.requests

namespace Sized
variable {machine : Machine}

theorem frames (sized : machine.Sized) : machine.frames.capacity = machine.capacities.frames :=
  sized.1

theorem continuations (sized : machine.Sized) :
    machine.continuations.capacity = machine.capacities.continuations :=
  sized.2.1

theorem outstanding (sized : machine.Sized) :
    machine.outstanding.capacity = machine.capacities.outstanding :=
  sized.2.2.1

theorem changes (sized : machine.Sized) :
    machine.changes.capacity = machine.capacities.slotChanges :=
  sized.2.2.2.1

theorem requests (sized : machine.Sized) :
    machine.requests.capacity = machine.capacities.requests :=
  sized.2.2.2.2

end Sized

theorem sized_new (capacities : Capacities) : (new capacities).Sized := ⟨rfl, rfl, rfl, rfl, rfl⟩

/-- Two machines agree on where the traversal stands. -/
def SameControl (machine other : Machine) : Prop :=
  other.command = machine.command ∧ other.status = machine.status ∧
    other.cursor = machine.cursor ∧ other.frames = machine.frames

namespace SameControl
variable {first second third : Machine}

theorem refl (machine : Machine) : SameControl machine machine := ⟨rfl, rfl, rfl, rfl⟩

theorem trans (before : SameControl first second) (after : SameControl second third) :
    SameControl first third := by
  obtain ⟨command, status, cursor, frames⟩ := before
  obtain ⟨command_after, status_after, cursor_after, frames_after⟩ := after
  exact ⟨command_after.trans command, status_after.trans status, cursor_after.trans cursor,
    frames_after.trans frames⟩

end SameControl

end Machine

/-- The call of an immediate action, if that is what happened. -/
def Event.call? : Event β → Option Call
  | .called atom function requested returned => some ⟨atom, function, requested, returned⟩
  | .noticed _ _ _ | .logged _ => none

/-- The calls of immediate actions so far, in order. -/
def Tick.calls (tick : Tick β) : List Call := tick.trace.toList.filterMap Event.call?

theorem Tick.calls_emit {tick : Tick β} {event : Event β} (silent : event.call? = none) :
    (tick.emit event).calls = tick.calls := by
  simp [calls, emit, silent]

theorem Tick.toMoment_notify (tick : Tick β) (setting : Setting β) (atom : Nat) (flags : Flags) :
    (tick.notify setting atom flags).toMoment = tick.toMoment := by
  unfold notify
  split <;> rfl

theorem Tick.calls_notify (tick : Tick β) (setting : Setting β) (atom : Nat) (flags : Flags) :
    (tick.notify setting atom flags).calls = tick.calls := by
  unfold notify
  split
  · exact calls_emit rfl
  · rfl

theorem Tick.calls_call (tick : Tick β) (setting : Setting β) (atom function : Nat)
    (action : Action β) (requested : Status) :
    (tick.call setting atom function action requested).2.calls = tick.calls ++
      [⟨atom, function, requested, (tick.call setting atom function action requested).1⟩] := by
  simp [calls, call, emit, Event.call?]

/-- What is taken for a persistent action is the slot that belongs to it. -/
theorem Shape.eq_slot_of_taken (shape : Shape β) {atom slot : Nat} {found : Option Nat}
    (stands : shape.atom? atom = some (.persistent slot))
    (taken : Taken shape.slotAtoms atom found) : found = some slot := by
  obtain ⟨within, owner⟩ := Array.getElem?_eq_some_iff.mp (shape.slotAtoms_getElem? stands)
  cases taken with
  | miss absent => exact absurd owner (absent slot within)
  | hit place inside here =>
    have owned : shape.slotAtoms[place]? = some atom :=
      Array.getElem?_eq_some_iff.mpr ⟨inside, here⟩
    rw [shape.slotAtoms_getElem?_iff, stands] at owned
    obtain rfl := Atom.persistent.inj (Option.some.inj owned)
    rfl

/-- The tick stands where the course stands: it holds the same, it has made the same calls, and it
has passed what is remembered of the atoms that the course has dealt with. -/
structure Mirror (scene : Scene β) (capacities : Capacities) (earlier : List Call)
    (position : Nat) (tick : Tick β) (course : Course β) : Prop where
  board : tick.board = course.board
  actor : tick.actor = { scene.actor with seed := course.seed }
  calls : tick.calls = earlier ++ course.calls
  continuations : tick.machine.continuations.contents.toList = course.continuations
  outstanding : tick.machine.outstanding.contents.toList = course.outstanding
  launches : tick.machine.requests.launches.toList = course.launches
  cancels : tick.machine.requests.cancels.toList =
    (scene.cancelRequests course.canceled).reverse
  changes : tick.machine.changes.contents.toList = scene.slotChanges course.canceled
  pending : tick.machine.pending = course.pending
  outstandingCursor :
    Splits scene.actor.outstanding.entries course.frontier tick.machine.outstandingCursor
  continuationCursor : ∃ bound ≤ position,
    Splits scene.actor.continuations.entries bound tick.machine.continuationCursor
  slotCursor : ∃ bound ≤ position, Splits scene.shape.slotAtoms bound tick.machine.slotCursor
  sized : tick.machine.Sized
  capacities : tick.machine.capacities = capacities

namespace Mirror
variable {scene : Scene β} {capacities : Capacities} {earlier : List Call} {position : Nat}
  {tick : Tick β} {course : Course β}

theorem later (mirror : Mirror scene capacities earlier position tick course) {other : Nat}
    (forward : position ≤ other) : Mirror scene capacities earlier other tick course := by
  obtain ⟨bound, bounded, splits⟩ := mirror.continuationCursor
  obtain ⟨limit, limited, slots⟩ := mirror.slotCursor
  exact { mirror with
    continuationCursor := ⟨bound, Nat.le_trans bounded forward, splits⟩
    slotCursor := ⟨limit, Nat.le_trans limited forward, slots⟩ }

/-- An event that is no call is not mirrored. -/
theorem emit (mirror : Mirror scene capacities earlier position tick course) {event : Event β}
    (silent : event.call? = none) :
    Mirror scene capacities earlier position (tick.emit event) course := by
  refine { mirror with calls := ?_ }
  rw [← mirror.calls]
  simp [Tick.calls, Tick.emit, silent]

theorem log (mirror : Mirror scene capacities earlier position tick course) (event : LogEvent) :
    Mirror scene capacities earlier position (tick.log event) course :=
  mirror.emit rfl

theorem notify (mirror : Mirror scene capacities earlier position tick course)
    (setting : Setting β) (atom : Nat) (flags : Flags) :
    Mirror scene capacities earlier position (tick.notify setting atom flags) course := by
  unfold Tick.notify
  split
  · exact mirror.emit rfl
  · exact mirror

/-- Where the traversal stands is not mirrored. -/
theorem steer (mirror : Mirror scene capacities earlier position tick course) (command : Command)
    (status : Status) (cursor : Nat) {frames : Buffer Frame}
    (same : frames.capacity = tick.machine.frames.capacity) :
    Mirror scene capacities earlier position
      { tick with machine := { tick.machine with command, status, cursor, frames } } course :=
  { mirror with
    sized := ⟨same.trans mirror.sized.frames, mirror.sized.continuations,
      mirror.sized.outstanding, mirror.sized.changes, mirror.sized.requests⟩ }

theorem proceed (mirror : Mirror scene capacities earlier position tick course)
    (command : Command) :
    Mirror scene capacities earlier position (tick.proceed command) course :=
  mirror.steer command tick.machine.status tick.machine.cursor rfl

/-- The same call comes to the same reply. -/
theorem call (mirror : Mirror scene capacities earlier position tick course) (atom : Nat)
    {function : Nat} {action : Action β} (known : scene.shape.function? function = some action)
    (requested : Status) :
    ∃ returned called left,
      tick.call scene.toSetting atom function action requested = (returned, called) ∧
      course.call scene atom function requested = (returned, left) ∧
      SameControl tick.machine called.machine ∧
      Mirror scene capacities earlier position called left := by
  have seed : tick.actor.seed = course.seed := by rw [mirror.actor]
  have replied : scene.reply course.board course.seed function requested =
      action tick.board tick.actor.seed scene.time requested := by
    rw [Scene.reply, known, mirror.board, seed]
  refine ⟨(course.call scene atom function requested).1,
    (tick.call scene.toSetting atom function action requested).2,
    (course.call scene atom function requested).2, ?_, rfl, .refl _,
    { mirror with board := ?_, actor := ?_, calls := ?_ }⟩
  · simp only [Course.call, replied, Tick.call]
  · simp only [Course.call, replied, Tick.call, Tick.emit]
  · simp only [Course.call, replied, Tick.call, Tick.emit]
    rw [mirror.actor]
  · have calls := mirror.calls
    simp only [Tick.calls] at calls
    simp only [Tick.call, Tick.emit, Tick.calls, Array.toList_push, List.filterMap_append, calls,
      Course.call, replied, List.append_assoc]
    rfl

/-- What the machine reads of an action is what the actor remembers. -/
theorem takeOutstanding (mirror : Mirror scene capacities earlier position tick course)
    (ready : scene.Ready) {atom : Nat} (ahead : course.frontier ≤ atom) :
    ∃ read, tick.takeOutstanding atom = .ok (scene.remembered atom, read) ∧
      SameControl tick.machine read.machine ∧
      Mirror scene capacities earlier position read
        { course with visited := course.visited ++ [atom], frontier := atom + 1 } := by
  obtain ⟨found, cursor, taken, splits, delivered⟩ :=
    take_splits ready.outstanding mirror.outstandingCursor ahead
  have entries : tick.actor.outstanding.entries = scene.actor.outstanding.entries := by
    rw [mirror.actor]
  refine ⟨{ tick with machine.outstandingCursor := cursor }, ?_, .refl _,
    { mirror with outstandingCursor := splits }⟩
  simp only [Tick.takeOutstanding, entries, taken, bind, Except.bind, pure, Except.pure]
  rw [SparseStates.read_taken ready.outstanding delivered, Scene.remembered]

/-- What the machine reads of a sequence is what the actor remembers. -/
theorem takeContinuation (mirror : Mirror scene capacities earlier position tick course)
    (ready : scene.Ready) :
    ∃ read, tick.takeContinuation position =
        .ok (scene.actor.continuations.find? position, read) ∧
      SameControl tick.machine read.machine ∧
      Mirror scene capacities earlier (position + 1) read course := by
  obtain ⟨bound, bounded, before⟩ := mirror.continuationCursor
  obtain ⟨found, cursor, taken, splits, delivered⟩ :=
    take_splits ready.continuations before bounded
  have entries : tick.actor.continuations.entries = scene.actor.continuations.entries := by
    rw [mirror.actor]
  refine ⟨{ tick with machine.continuationCursor := cursor }, ?_, .refl _,
    { mirror.later (Nat.le_succ position) with
      continuationCursor := ⟨position + 1, Nat.le_refl _, splits⟩ }⟩
  simp only [Tick.takeContinuation, entries, taken, bind, Except.bind, pure, Except.pure]
  rw [SparseStates.read_taken ready.continuations delivered]

/-- The slot that the machine finds is the one that belongs to the action. -/
theorem takeSlot (mirror : Mirror scene capacities earlier position tick course) {slot : Nat}
    (stands : scene.shape.atom? position = some (.persistent slot)) :
    ∃ read, tick.takeSlot scene.toSetting position = .ok (some slot, read) ∧
      SameControl tick.machine read.machine ∧
      Mirror scene capacities earlier (position + 1) read course := by
  obtain ⟨bound, bounded, before⟩ := mirror.slotCursor
  obtain ⟨found, cursor, taken, splits, delivered⟩ :=
    take_splits scene.shape.ascending_slotAtoms before bounded
  obtain rfl := scene.shape.eq_slot_of_taken stands delivered
  refine ⟨{ tick with machine.slotCursor := cursor }, ?_, .refl _,
    { mirror.later (Nat.le_succ position) with
      slotCursor := ⟨position + 1, Nat.le_refl _, splits⟩ }⟩
  simp only [Tick.takeSlot, taken, bind, Except.bind, pure, Except.pure]

/-- Where there is room for one more outstanding action, it is added. -/
theorem pushOutstanding (mirror : Mirror scene capacities earlier position tick course)
    (atom : Nat) (status : Status)
    (room : (course.stay atom status).outstanding.length ≤ capacities.outstanding) :
    ∃ pushed, tick.pushOutstanding atom status = .ok pushed ∧
      SameControl tick.machine pushed.machine ∧
      Mirror scene capacities earlier position pushed (course.stay atom status) := by
  have free : tick.machine.outstanding.count < tick.machine.outstanding.capacity := by
    rw [mirror.sized.outstanding, mirror.capacities, ← Buffer.length_contents,
      mirror.outstanding]
    rw [Course.stay, List.length_append, List.length_singleton] at room
    exact room
  obtain ⟨outstanding, pushed, contents, capacity⟩ := Buffer.push_room free ⟨atom, status⟩
  refine ⟨{ tick with machine.outstanding := outstanding }, ?_, .refl _,
    { mirror with outstanding := ?_, sized := ?_ }⟩
  · simp only [Tick.pushOutstanding, pushed, bind, Except.bind, pure, Except.pure]
  · rw [contents, mirror.outstanding]
    rfl
  · exact ⟨mirror.sized.frames, mirror.sized.continuations,
      capacity.trans mirror.sized.outstanding, mirror.sized.changes, mirror.sized.requests⟩

/-- Where there is room for one more request and one more outstanding action, a launch is
requested. -/
theorem launch (mirror : Mirror scene capacities earlier position tick course)
    (atom action resource : Nat)
    (room : (course.stay atom .launch).outstanding.length ≤ capacities.outstanding)
    (requests_room : (course.launch ⟨action, resource, atom⟩).launches.length +
      (scene.cancelRequests course.canceled).length ≤ capacities.requests) :
    ∃ launched, tick.launch atom action resource = .ok launched ∧
      SameControl tick.machine launched.machine ∧
      Mirror scene capacities earlier position launched
        ((course.launch ⟨action, resource, atom⟩).stay atom .launch) := by
  have free : tick.machine.requests.count < tick.machine.requests.capacity := by
    rw [mirror.sized.requests, mirror.capacities, ← RequestQueue.length_lists, mirror.launches,
      mirror.cancels, List.length_reverse]
    rw [Course.launch, List.length_append, List.length_singleton] at requests_room
    omega
  obtain ⟨requests, pushed, launches, cancels, capacity⟩ :=
    RequestQueue.pushLaunch_room free ⟨action, resource, atom⟩
  have requested : Mirror scene capacities earlier position
      { tick with machine.requests := requests } (course.launch ⟨action, resource, atom⟩) := by
    refine { mirror with launches := ?_, cancels := ?_, sized := ?_ }
    · rw [launches, mirror.launches]
      rfl
    · rw [cancels, mirror.cancels]
      rfl
    · exact ⟨mirror.sized.frames, mirror.sized.continuations, mirror.sized.outstanding,
        mirror.sized.changes, capacity.trans mirror.sized.requests⟩
  obtain ⟨after, stays, control, after_mirror⟩ :=
    (requested.log (.launchRequested atom action)).pushOutstanding atom .launch room
  refine ⟨after, ?_, control, after_mirror⟩
  simp only [Tick.launch, pushed, bind, Except.bind]
  exact stays

end Mirror

end BehaviorTree
