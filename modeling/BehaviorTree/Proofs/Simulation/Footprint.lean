import BehaviorTree.Machine.Run
import BehaviorTree.Proofs.Simulation.Absorption
import BehaviorTree.Proofs.Simulation.Cleaning

/-!
The footprint of an operation is what it leaves alone, if it succeeds at all.
-/

namespace BehaviorTree
open Checked
variable {β : Type}

namespace Machine

/-- A machine can hold as much after something as before it. -/
structure Stores (before after : Machine) : Prop where
  capacities : after.capacities = before.capacities
  frames : after.frames.capacity = before.frames.capacity
  continuations : after.continuations.capacity = before.continuations.capacity
  outstanding : after.outstanding.capacity = before.outstanding.capacity
  changes : after.changes.capacity = before.changes.capacity
  requests : after.requests.capacity = before.requests.capacity
  scratch : after.changeScratch.size = before.changeScratch.size

namespace Stores
variable {first second third : Machine}

theorem refl (machine : Machine) : Stores machine machine := ⟨rfl, rfl, rfl, rfl, rfl, rfl, rfl⟩

theorem trans (before : Stores first second) (after : Stores second third) : Stores first third :=
  ⟨after.capacities.trans before.capacities, after.frames.trans before.frames,
    after.continuations.trans before.continuations, after.outstanding.trans before.outstanding,
    after.changes.trans before.changes, after.requests.trans before.requests,
    after.scratch.trans before.scratch⟩

end Stores

end Machine

/-- An event of the handling of one node: it is no notice, and marks neither a step, nor the end of
a node, nor a drain. -/
def Event.isMinor : Event β → Bool
  | .called _ _ _ _ => true
  | .noticed _ _ _ => false
  | .logged (.stepStarted _ _ _) | .logged (.actionVisited _ _) | .logged (.deciderLeft _ _)
  | .logged (.spanDrained _ _ _) => false
  | .logged _ => true

namespace Tick
variable {tick middle after : Tick β} {setting : Setting β}

/-- What happened since an earlier moment is minor, and of the machine and the actor nothing has
changed but the requests, the changes, the seed and the cursors of sequences and slots. -/
structure Calm (before after : Tick β) : Prop where
  trace : ∃ added, after.trace.toList = before.trace.toList ++ added ∧
    ∀ event ∈ added, event.isMinor = true
  actor : ∃ seed, after.actor = { before.actor with seed }
  machine : ∃ continuationCursor slotCursor requests changes,
    after.machine =
      { before.machine with continuationCursor, slotCursor, requests, changes } ∧
    requests.capacity = before.machine.requests.capacity ∧
    changes.capacity = before.machine.changes.capacity

namespace Calm

theorem refl (tick : Tick β) : tick.Calm tick :=
  ⟨⟨[], by simp⟩, ⟨_, rfl⟩, ⟨_, _, _, _, rfl, rfl, rfl⟩⟩

theorem trans (first : tick.Calm middle) (second : middle.Calm after) : tick.Calm after := by
  obtain ⟨added, traced, minor⟩ := first.trace
  obtain ⟨more, traced_more, minor_more⟩ := second.trace
  obtain ⟨seed, actor⟩ := first.actor
  obtain ⟨other, actor_after⟩ := second.actor
  obtain ⟨_, _, requests, changes, machine, requests_room, changes_room⟩ := first.machine
  obtain ⟨continuationCursor, slotCursor, requests_after, changes_after, machine_after,
    requests_same, changes_same⟩ := second.machine
  rw [actor] at actor_after
  rw [machine] at machine_after requests_same changes_same
  refine ⟨⟨added ++ more, ?_, ?_⟩, ⟨other, actor_after⟩, ⟨continuationCursor, slotCursor,
    requests_after, changes_after, machine_after, requests_same.trans requests_room,
    changes_same.trans changes_room⟩⟩
  · rw [traced_more, traced, List.append_assoc]
  · rw [List.forall_mem_append]
    exact ⟨minor, minor_more⟩

/-- A view of the trace that leaves out what is minor stays as it is. -/
theorem filterMap_trace {γ : Type} {view : Event β → Option γ}
    (silent : ∀ {event : Event β}, event.isMinor = true → view event = none)
    (calm : tick.Calm after) :
    after.trace.toList.filterMap view = tick.trace.toList.filterMap view := by
  obtain ⟨added, traced, minor⟩ := calm.trace
  have nothing : added.filterMap view = [] :=
    List.filterMap_eq_nil_iff.mpr fun event member => silent (minor event member)
  rw [traced, List.filterMap_append, nothing, List.append_nil]

theorem stores (calm : tick.Calm after) : tick.machine.Stores after.machine := by
  obtain ⟨_, _, _, _, machine, requests, changes⟩ := calm.machine
  rw [machine]
  exact ⟨rfl, rfl, rfl, rfl, changes, requests, rfl⟩

end Calm

theorem calm_emit {event : Event β} (minor : event.isMinor = true) : tick.Calm (tick.emit event) :=
  ⟨⟨[event], by simp [emit], by simpa using minor⟩, ⟨_, rfl⟩, ⟨_, _, _, _, rfl, rfl, rfl⟩⟩

theorem calm_call (tick : Tick β) (setting : Setting β) (atom function : Nat) (action : Action β)
    (requested : Status) : tick.Calm (tick.call setting atom function action requested).2 :=
  ⟨⟨[_], by simp [call, emit]; rfl, by simp [Event.isMinor]⟩, ⟨_, rfl⟩, ⟨_, _, _, _, rfl, rfl, rfl⟩⟩

theorem calm_takeContinuation (tick : Tick β) (atom : Nat) :
    (tick.takeContinuation atom).Ensures fun read => tick.Calm read.2 :=
  (ensures_true _).bind fun _ _ =>
    ensures_pure.mpr ⟨⟨[], by simp⟩, ⟨_, rfl⟩, ⟨_, _, _, _, rfl, rfl, rfl⟩⟩

theorem calm_takeSlot (tick : Tick β) (setting : Setting β) (atom : Nat) :
    (tick.takeSlot setting atom).Ensures fun read => tick.Calm read.2 :=
  (ensures_true _).bind fun _ _ =>
    ensures_pure.mpr ⟨⟨[], by simp⟩, ⟨_, rfl⟩, ⟨_, _, _, _, rfl, rfl, rfl⟩⟩

/-- Where 32 bits hold it, the first child of a decider is the next atom. -/
theorem ensures_firstChild (frame : Frame) :
    frame.firstChild.Ensures fun child => child = frame.atom + 1 := by
  unfold Frame.firstChild
  split
  · exact ensures_ok.mpr rfl
  · exact ensures_error

theorem calm_resumeAt (tick : Tick β) (frame : Frame) (remembered : Option Nat) :
    tick.Calm (tick.resumeAt frame (frame.atom + 1) remembered).2.2 ∧
      frame.atom < (tick.resumeAt frame (frame.atom + 1) remembered).1 ∧
      (frame.atom + 1 < frame.stop →
        (tick.resumeAt frame (frame.atom + 1) remembered).1 < frame.stop) ∧
      (tick.resumeAt frame (frame.atom + 1) remembered).2.1.atom = frame.atom ∧
      (tick.resumeAt frame (frame.atom + 1) remembered).2.1.stop = frame.stop := by
  unfold resumeAt
  split
  · exact ⟨.refl tick, Nat.lt_succ_self _, id, rfl, rfl⟩
  · split
    · next reached => exact ⟨.refl tick, reached.1, fun _ => reached.2, rfl, rfl⟩
    · exact ⟨calm_emit rfl, Nat.lt_succ_self _, id, rfl, rfl⟩

theorem calm_resumption (tick : Tick β) (frame : Frame) :
    (tick.resumption frame).Ensures fun resumed =>
      tick.Calm resumed.2.2 ∧ frame.atom < resumed.1 ∧
        (frame.atom + 1 < frame.stop → resumed.1 < frame.stop) ∧
        resumed.2.1.atom = frame.atom ∧ resumed.2.1.stop = frame.stop := by
  refine (ensures_firstChild frame).bind fun child same => ?_
  obtain rfl := same
  split
  · exact ensures_pure.mpr ⟨.refl tick, Nat.lt_succ_self _, id, rfl, rfl⟩
  · exact ensures_pure.mpr ⟨.refl tick, Nat.lt_succ_self _, id, rfl, rfl⟩
  · refine (tick.calm_takeContinuation frame.atom).bind fun ⟨remembered, read⟩ calm =>
      ensures_pure.mpr ?_
    obtain ⟨more, chosen⟩ := read.calm_resumeAt frame remembered
    exact ⟨calm.trans more, chosen⟩

theorem calm_cancelAtom (tick : Tick β) (setting : Setting β) (index : Nat) (atom : Atom) :
    (tick.cancelAtom setting index atom).Ensures tick.Calm := by
  cases atom with
  | immediate function =>
    simp only [cancelAtom]
    split
    · next action known =>
      have called := tick.calm_call setting index function action .cancel
      refine ensures_ok.mpr ?_
      unfold callCancel
      simp only
      split
      · exact called
      · exact called.trans (calm_emit rfl)
    · exact ensures_ok.mpr (.refl tick)
  | deferred action resource =>
    refine (RequestQueue.ensures_pushCancel _ _).bind fun requests room => ensures_pure.mpr ?_
    have requested : tick.Calm { tick with machine.requests := requests } :=
      ⟨⟨[], by simp⟩, ⟨_, rfl⟩, ⟨_, _, _, _, rfl, room, rfl⟩⟩
    exact requested.trans (calm_emit rfl)
  | persistent slot =>
    refine (Buffer.ensures_push _ _).bind fun changes pushed => ensures_pure.mpr ?_
    exact ⟨⟨[], by simp⟩, ⟨_, rfl⟩, ⟨_, _, _, _, rfl, rfl, pushed.2⟩⟩
  | decider rule stop => exact ensures_error

/-- A relation that holds across all that an action does to answer, but for leaving itself
outstanding. -/
structure KeptInAnswers (holds : Tick β → Tick β → Prop) : Prop where
  refl (tick : Tick β) : holds tick tick
  trans {before middle after : Tick β} (first : holds before middle) (second : holds middle after) :
    holds before after
  log (tick : Tick β) {event : LogEvent} (minor : (Event.logged event : Event β).isMinor = true) :
    holds tick (tick.log event)
  call (tick : Tick β) (setting : Setting β) (atom function : Nat) (action : Action β)
    (requested : Status) : holds tick (tick.call setting atom function action requested).2
  pushLaunch (tick : Tick β) (request : Request) :
    (tick.machine.requests.pushLaunch request).Ensures fun requests =>
      holds tick { tick with machine.requests := requests }

/-- An action responds: something holds across all else that it does, and then it is left
outstanding or not. -/
def Responds (holds : Tick β → Tick β → Prop) (tick : Tick β) (atom : Nat) (after : Tick β) :
    Prop :=
  ∃ middle, holds tick middle ∧
    (after = middle ∨ ∃ status, middle.pushOutstanding atom status = .ok after)

/-- A visit of an action reads and passes what is remembered of it, and then the action responds. -/
def Attends (holds : Tick β → Tick β → Prop) (tick : Tick β) (atom : Nat) (after : Tick β) : Prop :=
  ∃ read, tick.takeOutstanding atom = .ok read ∧ read.2.Responds holds atom after

section
variable {holds : Tick β → Tick β → Prop}

theorem responds (held : holds tick middle) (atom : Nat) : tick.Responds holds atom middle :=
  ⟨middle, held, .inl rfl⟩

theorem responds_push (held : holds tick middle) (atom : Nat) (status : Status) :
    (middle.pushOutstanding atom status).Ensures (tick.Responds holds atom) :=
  fun _ stays => ⟨middle, held, .inr ⟨status, stays⟩⟩

namespace KeptInAnswers
variable (kept : KeptInAnswers holds)
include kept

/-- What also holds when an action is left outstanding holds across its response. -/
theorem of_responds (pushes : ∀ (tick : Tick β) (atom : Nat) (status : Status),
    (tick.pushOutstanding atom status).Ensures (holds tick)) {atom : Nat}
    (responds : tick.Responds holds atom after) : holds tick after := by
  obtain ⟨middle, held, rfl | ⟨status, stays⟩⟩ := responds
  · exact held
  · exact kept.trans held (pushes middle atom status after stays)

theorem requestOf (tick : Tick β) (atom : Nat) (previous : Option Status) :
    holds tick (tick.requestOf atom previous).2 := by
  unfold Tick.requestOf
  split
  · exact kept.refl tick
  · split
    · exact kept.refl tick
    · exact kept.log tick rfl

theorem logReturned (tick : Tick β) (atom : Nat) (returned : Status) :
    holds tick (tick.logReturned atom returned) := by
  cases returned with
  | launch | cancel => exact kept.log tick rfl
  | running | success | fail => exact kept.refl tick

theorem answerImmediate (tick : Tick β) (setting : Setting β) (atom function : Nat)
    (previous : Option Status) :
    (tick.answerImmediate setting atom function previous).Ensures fun answer =>
      tick.Responds holds atom answer.2 := by
  have asked := kept.requestOf tick atom previous
  unfold Tick.answerImmediate
  generalize tick.requestOf atom previous = request at asked ⊢
  simp only
  split
  · exact ensures_error
  · next action known =>
    have called := kept.trans asked (kept.call request.2 setting atom function action request.1)
    generalize request.2.call setting atom function action request.1 = reply at called ⊢
    have logged := kept.trans called (kept.logReturned reply.2 atom reply.1)
    split
    · exact (responds_push logged atom .running).bind fun pushed responds =>
        ensures_pure.mpr responds
    · exact ensures_pure.mpr (responds logged atom)

theorem launch (tick : Tick β) (atom action resource : Nat) :
    (tick.launch atom action resource).Ensures (tick.Responds holds atom) :=
  (kept.pushLaunch tick _).bind fun _ requested =>
    responds_push (kept.trans requested (kept.log _ rfl)) atom .launch

theorem answerDeferred (tick : Tick β) (atom action resource : Nat) (previous : Option Status) :
    (tick.answerDeferred atom action resource previous).Ensures fun answer =>
      tick.Responds holds atom answer.2 := by
  have stays := responds_push (kept.refl tick) atom .running
  unfold Tick.answerDeferred
  split
  · exact (kept.launch tick atom action resource).bind fun launched responds =>
      ensures_pure.mpr responds
  · exact stays.bind fun pushed responds => ensures_pure.mpr responds
  · exact stays.bind fun pushed responds => ensures_pure.mpr responds
  · exact ensures_pure.mpr (responds (kept.log tick rfl) atom)
  · exact ensures_pure.mpr (responds (kept.refl tick) atom)
  · exact ensures_pure.mpr (responds (kept.refl tick) atom)

theorem answerPersistent (tick : Tick β) (atom slot : Nat) (found : Option Nat) :
    (tick.answerPersistent atom slot found).Ensures fun answer =>
      tick.Responds holds atom answer.2 := by
  have stays (status : Status) := responds_push (kept.refl tick) atom status
  have still := responds (kept.refl tick) atom
  refine (ensures_true _).bind fun _ _ => ?_
  split
  · exact ensures_pure.mpr still
  · exact (stays .launch).bind fun pushed responds => ensures_pure.mpr responds
  · exact (stays .running).bind fun pushed responds => ensures_pure.mpr responds
  · exact ensures_pure.mpr still
  · exact ensures_pure.mpr still
  · exact ensures_pure.mpr still

theorem visitImmediate (tick : Tick β) (setting : Setting β) (atom function : Nat) :
    (tick.visitImmediate setting atom function).Ensures fun visit =>
      tick.Attends holds atom visit.2 :=
  (ensures_self _).bind fun read taken =>
    (kept.answerImmediate read.2 setting atom function read.1).mono fun _ responds =>
      ⟨read, taken, responds⟩

theorem visitDeferred (tick : Tick β) (atom action resource : Nat) :
    (tick.visitDeferred atom action resource).Ensures fun visit =>
      tick.Attends holds atom visit.2 :=
  (ensures_self _).bind fun read taken =>
    (kept.answerDeferred read.2 atom action resource read.1).mono fun _ responds =>
      ⟨read, taken, responds⟩

section
variable (slots : ∀ (tick : Tick β) (setting : Setting β) (atom : Nat),
  (tick.takeSlot setting atom).Ensures fun read => holds tick read.2)
include slots

theorem visitPersistent (tick : Tick β) (setting : Setting β) (atom slot : Nat) :
    (tick.visitPersistent setting atom slot).Ensures fun visit =>
      tick.Attends holds atom visit.2 := by
  refine (ensures_self _).bind fun read taken => ?_
  refine (slots read.2 setting atom).bind fun sought held => ?_
  refine (kept.answerPersistent sought.2 atom slot sought.1).mono fun _ responds => ?_
  obtain ⟨middle, more, stays⟩ := responds
  exact ⟨read, taken, middle, kept.trans held more, stays⟩

/-- What a visited action delivers follows its visit. -/
theorem visitAtom (tick : Tick β) (setting : Setting β) (index : Nat) {atom : Atom}
    (acts : atom.isDecider = false) :
    (tick.visitAtom setting index atom).Ensures fun after =>
      ∃ visited result, tick.Attends holds index visited ∧
        after = visited.deliver setting index result := by
  cases atom with
  | immediate function =>
    exact (kept.visitImmediate tick setting index function).bind fun visit attends =>
      ensures_pure.mpr ⟨_, _, attends, rfl⟩
  | deferred action resource =>
    exact (kept.visitDeferred tick index action resource).bind fun visit attends =>
      ensures_pure.mpr ⟨_, _, attends, rfl⟩
  | persistent slot =>
    exact (kept.visitPersistent slots tick setting index slot).bind fun visit attends =>
      ensures_pure.mpr ⟨_, _, attends, rfl⟩
  | decider => cases acts

end

end KeptInAnswers

end

/-- All that an action does to answer is calm. -/
theorem calm_kept : KeptInAnswers (Calm : Tick β → Tick β → Prop) where
  refl := .refl
  trans := .trans
  log _ _ minor := calm_emit minor
  call := calm_call
  pushLaunch tick _ := (RequestQueue.ensures_pushLaunch _ _).mono fun _ room =>
    ⟨⟨[], by simp⟩, ⟨_, rfl⟩, ⟨_, _, _, _, rfl, room, rfl⟩⟩

theorem attends_visitAtom (tick : Tick β) (setting : Setting β) (index : Nat) {atom : Atom}
    (acts : atom.isDecider = false) :
    (tick.visitAtom setting index atom).Ensures fun after =>
      ∃ visited result, tick.Attends Calm index visited ∧
        after = visited.deliver setting index result :=
  calm_kept.visitAtom calm_takeSlot tick setting index acts

theorem machine_notify (tick : Tick β) (setting : Setting β) (atom : Nat) (flags : Flags) :
    (tick.notify setting atom flags).machine = tick.machine := by
  unfold notify
  split <;> rfl

/-- What is read of an action moves a cursor only. -/
theorem takeOutstanding_eq (tick : Tick β) (atom : Nat) :
    (tick.takeOutstanding atom).Ensures fun read => ∃ position cursor,
      Ordered.take tick.actor.outstanding.entries atom tick.machine.outstandingCursor =
        .ok (position, cursor) ∧
      read.2 = { tick with machine.outstandingCursor := cursor } :=
  (ensures_self _).bind fun ⟨position, cursor⟩ taken =>
    ensures_pure.mpr ⟨position, cursor, taken, rfl⟩

/-- What is outstanding from now on is added behind the others. -/
theorem pushOutstanding_eq (tick : Tick β) (atom : Nat) (status : Status) :
    (tick.pushOutstanding atom status).Ensures fun after => ∃ outstanding,
      after = { tick with machine.outstanding := outstanding } ∧
      outstanding.contents = tick.machine.outstanding.contents.push ⟨atom, status⟩ ∧
      outstanding.capacity = tick.machine.outstanding.capacity :=
  (Buffer.ensures_push _ _).bind fun outstanding ⟨contents, capacity⟩ =>
    ensures_pure.mpr ⟨outstanding, rfl, contents, capacity⟩

theorem Attends.stores {atom : Nat} (attends : tick.Attends Calm atom after) :
    tick.machine.Stores after.machine := by
  obtain ⟨read, taken, middle, calm, stays⟩ := attends
  obtain ⟨-, cursor, -, passed⟩ := tick.takeOutstanding_eq atom read taken
  have before : tick.machine.Stores read.2.machine := by
    rw [passed]
    exact ⟨rfl, rfl, rfl, rfl, rfl, rfl, rfl⟩
  have visited := before.trans calm.stores
  obtain rfl | ⟨status, pushed⟩ := stays
  · exact visited
  · obtain ⟨outstanding, rfl, -, capacity⟩ := middle.pushOutstanding_eq atom status after pushed
    exact visited.trans ⟨rfl, rfl, rfl, capacity, rfl, rfl, rfl⟩

theorem stores_proceed (tick : Tick β) (command : Command) :
    tick.machine.Stores (tick.proceed command).machine :=
  ⟨rfl, rfl, rfl, rfl, rfl, rfl, rfl⟩

theorem stores_deliver (tick : Tick β) (setting : Setting β) (atom : Nat) (result : Status) :
    tick.machine.Stores (tick.deliver setting atom result).machine := by
  unfold deliver proceed
  simp only [machine_notify]
  exact ⟨rfl, rfl, rfl, rfl, rfl, rfl, rfl⟩

theorem stores_enterDecider (tick : Tick β) (setting : Setting β) (frame : Frame) :
    (tick.enterDecider setting frame).Ensures fun after => tick.machine.Stores after.machine := by
  unfold enterDecider
  split
  · exact ensures_pure.mpr ⟨rfl, rfl, rfl, rfl, rfl, rfl, rfl⟩
  · refine (ensures_true _).bind fun _ _ => (ensures_true _).bind fun _ _ => ?_
    refine (calm_resumption _ frame).bind fun ⟨start, resumed, read⟩ ⟨calm, _⟩ => ?_
    refine (Buffer.ensures_push _ _).bind fun frames ⟨_, capacity⟩ => ensures_pure.mpr ?_
    have failing : tick.machine.Stores { tick.machine with status := .fail } :=
      ⟨rfl, rfl, rfl, rfl, rfl, rfl, rfl⟩
    unfold proceed
    simp only [machine_notify]
    exact (failing.trans calm.stores).trans ⟨rfl, capacity, rfl, rfl, rfl, rfl, rfl⟩

theorem stores_absorb (machine : Machine) (frame : Frame) :
    (machine.absorb frame).Ensures fun absorbed => machine.Stores absorbed.2 := by
  refine (machine.absorb_notes frame).mono fun absorbed notes => ?_
  cases notes with
  | goesOn => exact .refl machine
  | records _ _ pushed =>
    obtain ⟨-, capacity⟩ := Buffer.ensures_push _ _ _ pushed
    exact ⟨rfl, rfl, capacity, rfl, rfl, rfl, rfl⟩
  | fails | chooses => exact ⟨rfl, rfl, rfl, rfl, rfl, rfl, rfl⟩
  | takesBack _ _ cut revoked =>
    obtain ⟨-, capacity⟩ := Buffer.ensures_truncate _ _ _ cut
    have room := RequestQueue.ensures_truncateLaunches _ _ _ revoked
    exact ⟨rfl, rfl, capacity, rfl, rfl, room, rfl⟩

theorem stores_leaveDecider (tick : Tick β) (setting : Setting β) (frame : Frame) (child : Status) :
    (tick.leaveDecider setting frame child).Ensures fun after =>
      tick.machine.Stores after.machine := by
  refine (Buffer.ensures_pop _).bind fun ⟨_, frames⟩ ⟨_, capacity⟩ => ensures_pure.mpr ?_
  unfold proceed
  simp only [machine_notify]
  exact ⟨rfl, capacity, rfl, rfl, rfl, rfl, rfl⟩

theorem stores_cancelAt (tick : Tick β) (setting : Setting β) (index : Nat) :
    (tick.cancelAt setting index).Ensures fun after => tick.machine.Stores after.machine := by
  unfold cancelAt
  split
  · exact ensures_ok.mpr (.refl _)
  · refine (calm_cancelAtom _ setting index _).bind fun canceled calm => ensures_pure.mpr ?_
    have stores := calm.stores
    rw [machine_notify] at stores ⊢
    exact stores

theorem stores_cancelAll (setting : Setting β) (indices : List Nat) (tick : Tick β) :
    (cancelAll setting indices tick).Ensures fun after => tick.machine.Stores after.machine :=
  ensures_cancelAll (fun tick index => tick.stores_cancelAt setting index)
    (fun tick => .refl tick.machine) .trans indices tick

theorem stores_drain (tick : Tick β) (setting : Setting β) :
    (tick.drain setting).Ensures fun after => tick.machine.Stores after.machine := by
  refine (tick.drain_clears setting).mono fun after clears => ?_
  cases clears with
  | idle => exact .refl _
  | cancels _ canceled truncated =>
    obtain ⟨-, capacity⟩ := Buffer.ensures_truncate _ _ _ truncated
    have emptied : tick.machine.Stores tick.emptied.machine := ⟨rfl, rfl, rfl, rfl, rfl, rfl, rfl⟩
    have stores := emptied.trans (stores_cancelAll setting _ _ _ canceled)
    exact stores.trans ⟨rfl, rfl, rfl, capacity, rfl, rfl, rfl⟩

theorem stores_nextChild (tick : Tick β) (setting : Setting β) (frame : Frame) :
    (tick.nextChild setting frame).Ensures fun after => tick.machine.Stores after.machine := by
  refine (stores_drain _ setting).bind fun drained stores => ensures_pure.mpr ?_
  rw [machine_notify] at stores
  have moved : tick.machine.Stores
      { tick.machine with frames := tick.machine.frames.setTop frame } :=
    ⟨rfl, Buffer.capacity_setTop _ _, rfl, rfl, rfl, rfl, rfl⟩
  exact moved.trans (stores.trans (drained.stores_proceed .invoke))

theorem stores_reorder (tick : Tick β) :
    tick.reorder.Ensures fun after => tick.machine.Stores after.machine := by
  have stores {machine : Machine} (rearranges : tick.machine.Rearranges machine) :
      tick.machine.Stores machine := by
    obtain ⟨frames, continuations, changes, scratch⟩ := rearranges
    exact ⟨rfl, frames, continuations, rfl, changes, rfl, scratch⟩
  refine tick.reorder_reorders.mono fun after reorders => ?_
  cases reorders with
  | silently rearranges => exact stores rearranges
  | reporting rearranges => exact stores rearranges

theorem stores_cleanup (tick : Tick β) (setting : Setting β) :
    (tick.cleanup setting).Ensures fun after =>
      tick.machine.Stores after.machine ∧ after.machine.command = .done := by
  refine (tick.stores_drain setting).bind fun drained stores => ?_
  refine drained.stores_reorder.bind fun ordered more => (ensures_true _).bind fun _ _ => ?_
  exact ensures_pure.mpr ⟨stores.trans (more.trans (ordered.stores_proceed .done)), rfl⟩

/-- No step changes how much the machine can hold. -/
theorem stores_step (tick : Tick β) (setting : Setting β) :
    (tick.step setting).Ensures fun after => tick.machine.Stores after.machine := by
  unfold step
  simp only
  let started := tick.log
    (.stepStarted tick.machine.command tick.machine.cursor tick.machine.status)
  split
  · unfold invoke
    simp only
    split
    · exact ensures_ok.mpr ⟨rfl, rfl, rfl, rfl, rfl, rfl, rfl⟩
    · next index atom stands =>
      have same := started.machine_notify setting started.machine.cursor (.enter ||| .fromTop)
      cases atom with
      | decider rule stop =>
        refine (stores_enterDecider _ setting _).mono fun after stores => ?_
        rw [same] at stores
        exact stores
      | immediate | deferred | persistent =>
        refine (attends_visitAtom _ setting _ rfl).mono
          fun after ⟨visited, result, attends, eq⟩ => ?_
        have delivered := visited.stores_deliver setting started.machine.cursor result
        have stores := attends.stores.trans delivered
        rw [same, ← eq] at stores
        exact stores
  · unfold resume
    split
    · exact ensures_ok.mpr ⟨rfl, rfl, rfl, rfl, rfl, rfl, rfl⟩
    · next frame top =>
      simp only [machine_notify]
      refine (stores_absorb _ frame).bind fun ⟨absorbed, machine⟩ stores => ?_
      simp only
      split
      · exact (stores_leaveDecider _ setting absorbed _).mono fun after more => stores.trans more
      · exact (stores_nextChild _ setting absorbed).mono fun after more => stores.trans more
  · exact (started.stores_cleanup setting).mono fun after ⟨stores, _⟩ => stores
  all_goals exact ensures_ok.mpr (.refl _)

/-- After the clean-up, the machine is done. -/
theorem command_step_cleanup (tick : Tick β) (setting : Setting β)
    (cleanup : tick.machine.command = .cleanup) :
    (tick.step setting).Ensures fun after => after.machine.command = .done := by
  unfold step
  simp only [cleanup]
  exact (stores_cleanup _ setting).mono fun after ⟨_, done⟩ => done

end Tick

namespace Machine
variable {machine after : Machine} {actor : Actor} {shape : Shape β}

/-- Where there is room, the machine is prepared at the root of the shape. -/
theorem prepareUpdate_eq (room : machine.checkRoom actor shape = .ok ()) :
    machine.prepareUpdate actor shape = .ok { machine.reset with command := .invoke } := by
  simp only [prepareUpdate, room, bind, Except.bind, pure, Except.pure]

theorem prepareCancel_eq (room : machine.checkRoom actor shape = .ok ()) :
    machine.prepareCancel actor shape = .ok { machine.reset with
      command := .cleanup, status := .cancel, pending := Span.empty.cover ⟨0, shape.size⟩ } := by
  simp only [prepareCancel, room, bind, Except.bind, pure, Except.pure]

theorem eq_of_prepareUpdate (prepares : machine.prepareUpdate actor shape = .ok after) :
    after = { machine.reset with command := .invoke } := by
  cases room : machine.checkRoom actor shape with
  | ok => exact Except.ok.inj (prepares.symm.trans (prepareUpdate_eq room))
  | error refused =>
    rw [prepareUpdate, room] at prepares
    cases prepares

theorem eq_of_prepareCancel (prepares : machine.prepareCancel actor shape = .ok after) :
    after = { machine.reset with
      command := .cleanup, status := .cancel, pending := Span.empty.cover ⟨0, shape.size⟩ } := by
  cases room : machine.checkRoom actor shape with
  | ok => exact Except.ok.inj (prepares.symm.trans (prepareCancel_eq room))
  | error refused =>
    rw [prepareCancel, room] at prepares
    cases prepares

end Machine

end BehaviorTree
