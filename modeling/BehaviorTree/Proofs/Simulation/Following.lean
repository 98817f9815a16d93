import BehaviorTree.Proofs.Simulation.Finish

namespace BehaviorTree
open Ordered Checked
variable {β : Type}

/-- Another machine stands at the same place and holds the same, with at least as much room. -/
structure Machine.FitsIn (machine other : Machine) : Prop where
  command : other.command = machine.command
  status : other.status = machine.status
  cursor : other.cursor = machine.cursor
  continuationCursor : other.continuationCursor = machine.continuationCursor
  outstandingCursor : other.outstandingCursor = machine.outstandingCursor
  slotCursor : other.slotCursor = machine.slotCursor
  frames : machine.frames.FitsIn other.frames
  pending : other.pending = machine.pending
  continuations : machine.continuations.FitsIn other.continuations
  outstanding : machine.outstanding.FitsIn other.outstanding
  changes : machine.changes.FitsIn other.changes
  requests : machine.requests.FitsIn other.requests

namespace Machine.FitsIn
variable {machine other : Machine}

/-- A decider takes note of the same in both machines. -/
theorem absorb (fits : machine.FitsIn other) (frame : Frame) :
    Leads (machine.absorb frame) (other.absorb frame) fun absorbed others =>
      others.1 = absorbed.1 ∧ absorbed.2.FitsIn others.2 := by
  unfold Machine.absorb
  rw [fits.status]
  split
  · next reached =>
    unfold Machine.absorbSequence
    split
    · exact (fits.continuations.push _).bind fun _ _ pushed =>
        leads_ok ⟨rfl, { fits with continuations := pushed, cursor := rfl }⟩
    · exact (fits.continuations.push _).bind fun _ _ pushed =>
        leads_ok ⟨rfl, { fits with continuations := pushed, cursor := rfl }⟩
    · rw [fits.cursor]
      exact leads_ok ⟨rfl, fits⟩
    · exact leads_ok ⟨rfl, { fits with cursor := rfl }⟩
    · exact leads_ok ⟨rfl, { fits with cursor := rfl }⟩
  · have covered : other.pending.cover ⟨other.cursor, frame.stop⟩ =
        machine.pending.cover ⟨machine.cursor, frame.stop⟩ := by
      rw [fits.pending, fits.cursor]
    unfold Machine.absorbDynamicPriority
    split
    all_goals first
      | exact leads_ok ⟨rfl, { fits with pending := covered, cursor := rfl }⟩
      | exact leads_ok ⟨rfl, fits⟩
  · have covered : other.pending.cover ⟨frame.atom, frame.stop⟩ =
        machine.pending.cover ⟨frame.atom, frame.stop⟩ := by
      rw [fits.pending]
    have abandons : Leads
        (do
          let continuations ← machine.continuations.truncate frame.continuationMark
          let requests ← machine.requests.truncateLaunches frame.launchMark
          return (frame, { machine with
            continuations
            requests
            pending := machine.pending.cover ⟨frame.atom, frame.stop⟩
            cursor := frame.stop }))
        (do
          let continuations ← other.continuations.truncate frame.continuationMark
          let requests ← other.requests.truncateLaunches frame.launchMark
          return (frame, { other with
            continuations
            requests
            pending := other.pending.cover ⟨frame.atom, frame.stop⟩
            cursor := frame.stop }))
        (fun absorbed others => others.1 = absorbed.1 ∧ absorbed.2.FitsIn others.2) :=
      (fits.continuations.truncate _).bind fun _ _ cut =>
        (fits.requests.truncateLaunches _).bind fun _ _ kept => leads_ok ⟨rfl, { fits with
          continuations := cut, requests := kept, pending := covered, cursor := rfl }⟩
    unfold Machine.absorbConcurrent
    split
    all_goals first
      | exact leads_ok ⟨rfl, fits⟩
      | exact abandons

end Machine.FitsIn

/-- The same setting, with a monitor or without one. -/
def Setting.watch (setting : Setting β) (watched : Bool) : Setting β :=
  { setting with monitored := watched }

@[simp] theorem Setting.shape_watch (setting : Setting β) (watched : Bool) :
    (setting.watch watched).shape = setting.shape := rfl

/-- The entry without an active status, if it belongs to a decider. -/
def Shape.disarm (shape : Shape β) (entry : Entry Status) : Entry Status :=
  if (shape.atom? entry.atom).any Atom.isDecider then { entry with value := .fail } else entry

theorem Shape.key_disarm (shape : Shape β) (entry : Entry Status) :
    key (shape.disarm entry) = key entry := by
  unfold disarm
  split <;> rfl

/-- What all followers of a leader have in common: the setting, what they have outstanding, and the
calls that the leader had made before. -/
structure Convoy (β : Type) where
  setting : Setting β
  carried : Array (Entry Status)
  before : List Call

namespace Convoy

/-- A tick follows a leader: it stands where the leader stands, and has made the same calls since
the start, where it had made some others already. -/
structure Follows (convoy : Convoy β) (behind : List Call) (leader follower : Tick β) : Prop where
  machine : leader.machine.FitsIn follower.machine
  board : follower.board = leader.board
  id : follower.actor.id = leader.actor.id
  seed : follower.actor.seed = leader.actor.seed
  slots : follower.actor.slots = leader.actor.slots
  continuations : follower.actor.continuations.entries = leader.actor.continuations.entries
  carried : follower.actor.outstanding.entries = convoy.carried
  disarmed : leader.actor.outstanding.entries = convoy.carried.map convoy.setting.shape.disarm
  supports : follower.actor.supports convoy.setting.shape.needs = true
  calls : ∃ made, leader.calls = convoy.before ++ made ∧ follower.calls = behind ++ made

/-- A value is echoed, and the tick that comes with it follows. -/
def Echoes {α : Type} (convoy : Convoy β) (behind : List Call) (read other : α × Tick β) : Prop :=
  other.1 = read.1 ∧ convoy.Follows behind read.2 other.2

end Convoy

namespace Convoy.Follows
variable {convoy : Convoy β} {behind : List Call} {leader follower : Tick β} {watched : Bool}

theorem emit (follows : convoy.Follows behind leader follower) {event other : Event β}
    (silent : event.call? = none) (quiet : other.call? = none) :
    convoy.Follows behind (leader.emit event) (follower.emit other) := by
  refine { follows with calls := ?_ }
  rw [Tick.calls_emit silent, Tick.calls_emit quiet]
  exact follows.calls

theorem log (follows : convoy.Follows behind leader follower) (event other : LogEvent) :
    convoy.Follows behind (leader.log event) (follower.log other) :=
  follows.emit rfl rfl

/-- What changes neither the moment nor the calls does not matter. -/
theorem congr (follows : convoy.Follows behind leader follower) {other others : Tick β}
    (same : other.toMoment = leader.toMoment) (calls : other.calls = leader.calls)
    (same_follower : others.toMoment = follower.toMoment)
    (calls_follower : others.calls = follower.calls) : convoy.Follows behind other others := by
  cases leader
  cases follower
  cases same
  cases same_follower
  exact { follows with calls := by rw [calls, calls_follower]; exact follows.calls }

theorem notify (follows : convoy.Follows behind leader follower) (watched : Bool) (atom : Nat)
    (flags : Flags) :
    convoy.Follows behind (leader.notify convoy.setting atom flags)
      (follower.notify (convoy.setting.watch watched) atom flags) :=
  follows.congr (leader.toMoment_notify _ atom flags) (leader.calls_notify _ atom flags)
    (follower.toMoment_notify _ atom flags) (follower.calls_notify _ atom flags)

theorem withMachine (follows : convoy.Follows behind leader follower) {machine other : Machine}
    (fits : machine.FitsIn other) :
    convoy.Follows behind { leader with machine } { follower with machine := other } :=
  { follows with machine := fits }

theorem withStatus (follows : convoy.Follows behind leader follower) (status : Status) :
    convoy.Follows behind { leader with machine.status := status }
      { follower with machine.status := status } :=
  follows.withMachine { follows.machine with status := rfl }

theorem withCursor (follows : convoy.Follows behind leader follower) (cursor : Nat) :
    convoy.Follows behind { leader with machine.cursor := cursor }
      { follower with machine.cursor := cursor } :=
  follows.withMachine { follows.machine with cursor := rfl }

theorem withFrames (follows : convoy.Follows behind leader follower) {frames others : Buffer Frame}
    (fits : frames.FitsIn others) :
    convoy.Follows behind { leader with machine.frames := frames }
      { follower with machine.frames := others } :=
  follows.withMachine { follows.machine with frames := fits }

theorem proceed (follows : convoy.Follows behind leader follower) (command : Command) :
    convoy.Follows behind (leader.proceed command) (follower.proceed command) :=
  follows.withMachine { follows.machine with command := rfl }

/-- The same call comes to the same reply. -/
theorem call (follows : convoy.Follows behind leader follower) (watched : Bool)
    (atom function : Nat) (action : Action β) (requested : Status) :
    convoy.Echoes behind (leader.call convoy.setting atom function action requested)
      (follower.call (convoy.setting.watch watched) atom function action requested) := by
  have same : action follower.board follower.actor.seed (convoy.setting.watch watched).time
      requested = action leader.board leader.actor.seed convoy.setting.time requested := by
    rw [follows.board, follows.seed]
    rfl
  obtain ⟨made, led, followed⟩ := follows.calls
  have status : (follower.call (convoy.setting.watch watched) atom function action requested).1 =
      (leader.call convoy.setting atom function action requested).1 := congrArg Reply.status same
  let made_now : Call := ⟨atom, function, requested,
    (leader.call convoy.setting atom function action requested).1⟩
  refine ⟨status, { follows with
    board := congrArg Reply.board same
    seed := congrArg Reply.seed same
    calls := ⟨made ++ [made_now], ?_, ?_⟩ }⟩
  · rw [Tick.calls_call, led, List.append_assoc]
  · rw [Tick.calls_call, followed, status, List.append_assoc]

/-- Nothing is hidden of an action, so the follower reads of it what the leader reads. -/
theorem takeOutstanding (follows : convoy.Follows behind leader follower) {atom : Nat} {node : Atom}
    (stands : convoy.setting.shape.atom? atom = some node) (acts : node.isDecider = false) :
    Leads (leader.takeOutstanding atom) (follower.takeOutstanding atom) (convoy.Echoes behind) := by
  have takes : Ordered.take follower.actor.outstanding.entries atom
      follower.machine.outstandingCursor =
        Ordered.take leader.actor.outstanding.entries atom leader.machine.outstandingCursor := by
    rw [follows.carried, follows.disarmed, take_map convoy.setting.shape.key_disarm,
      follows.machine.outstandingCursor]
  unfold Tick.takeOutstanding
  simp only [takes]
  refine (leads_self _).bind fun ⟨position, cursor⟩ other ⟨same, taken⟩ => ?_
  subst same
  refine leads_ok ⟨?_, follows.withMachine { follows.machine with outstandingCursor := rfl }⟩
  cases position with
  | none => rfl
  | some found =>
    have here := keyAt?_of_take taken
    rw [follows.disarmed] at here ⊢
    rw [follows.carried]
    simp only [Option.bind_some, Array.getElem?_map, Option.map_map]
    cases held : convoy.carried[found]? with
    | none => rfl
    | some entry =>
      have atom_eq : entry.atom = atom := by
        simpa [keyAt?, held, convoy.setting.shape.key_disarm] using here
      have decided : (convoy.setting.shape.atom? entry.atom).any Atom.isDecider = false := by
        rw [atom_eq, stands]
        exact acts
      simp [Shape.disarm, decided]

theorem takeContinuation (follows : convoy.Follows behind leader follower) (atom : Nat) :
    Leads (leader.takeContinuation atom) (follower.takeContinuation atom)
      (convoy.Echoes behind) := by
  unfold Tick.takeContinuation
  simp only [follows.continuations, follows.machine.continuationCursor]
  refine (leads_self _).bind fun read other ⟨same, _⟩ => ?_
  subst same
  exact leads_ok ⟨rfl, follows.withMachine { follows.machine with continuationCursor := rfl }⟩

theorem takeSlot (follows : convoy.Follows behind leader follower) (watched : Bool) (atom : Nat) :
    Leads (leader.takeSlot convoy.setting atom)
      (follower.takeSlot (convoy.setting.watch watched) atom) (convoy.Echoes behind) := by
  unfold Tick.takeSlot
  simp only [follows.machine.slotCursor]
  refine (leads_self _).bind fun read other ⟨same, _⟩ => ?_
  subst same
  exact leads_ok ⟨rfl, follows.withMachine { follows.machine with slotCursor := rfl }⟩

theorem pushOutstanding (follows : convoy.Follows behind leader follower) (atom : Nat)
    (status : Status) :
    Leads (leader.pushOutstanding atom status) (follower.pushOutstanding atom status)
      (convoy.Follows behind) :=
  (follows.machine.outstanding.push _).bind fun _ _ fits =>
    leads_ok (follows.withMachine { follows.machine with outstanding := fits })

theorem requestOf (follows : convoy.Follows behind leader follower) (atom : Nat)
    (previous : Option Status) :
    convoy.Echoes behind (leader.requestOf atom previous) (follower.requestOf atom previous) := by
  unfold Tick.requestOf
  split
  · exact ⟨rfl, follows⟩
  · split
    · exact ⟨rfl, follows⟩
    · exact ⟨rfl, follows.log _ _⟩

theorem logReturned (follows : convoy.Follows behind leader follower) (atom : Nat)
    (returned : Status) :
    convoy.Follows behind (leader.logReturned atom returned)
      (follower.logReturned atom returned) := by
  cases returned with
  | launch | cancel => exact follows.log _ _
  | running | success | fail => exact follows

section
variable (follows : convoy.Follows behind leader follower) {atom : Nat}
include follows

theorem answerImmediate (watched : Bool) (atom function : Nat) (previous : Option Status) :
    Leads (leader.answerImmediate convoy.setting atom function previous)
      (follower.answerImmediate (convoy.setting.watch watched) atom function previous)
      (convoy.Echoes behind) := by
  obtain ⟨requests, asks⟩ := follows.requestOf atom previous
  unfold Tick.answerImmediate
  simp only [Setting.shape_watch]
  generalize leader.requestOf atom previous = request at requests asks ⊢
  generalize follower.requestOf atom previous = asked at requests asks ⊢
  cases convoy.setting.shape.function? function with
  | none => exact leads_error
  | some action =>
    simp only [requests]
    obtain ⟨returns, calls⟩ := asks.call watched atom function action request.1
    generalize request.2.call convoy.setting atom function action request.1 = reply
      at returns calls ⊢
    generalize asked.2.call (convoy.setting.watch watched) atom function action request.1 = answer
      at returns calls ⊢
    simp only [returns]
    have logged := calls.logReturned atom reply.1
    split
    · exact (logged.pushOutstanding atom .running).bind fun _ _ pushed => leads_ok ⟨rfl, pushed⟩
    · exact leads_ok ⟨rfl, logged⟩

theorem launch (atom action resource : Nat) :
    Leads (leader.launch atom action resource) (follower.launch atom action resource)
      (convoy.Follows behind) := by
  refine (follows.machine.requests.pushLaunch _).bind fun requests queue fits => ?_
  have requested : convoy.Follows behind { leader with machine.requests := requests }
      { follower with machine.requests := queue } :=
    follows.withMachine { follows.machine with requests := fits }
  exact (requested.log _ _).pushOutstanding _ _

/-- An action that stays outstanding is answered for alike. -/
theorem stays (atom : Nat) (status result : Status) :
    Leads (do return (result, ← leader.pushOutstanding atom status))
      (do return (result, ← follower.pushOutstanding atom status)) (convoy.Echoes behind) :=
  (follows.pushOutstanding atom status).bind fun _ _ pushed => leads_ok ⟨rfl, pushed⟩

theorem answerDeferred (atom action resource : Nat) (previous : Option Status) :
    Leads (leader.answerDeferred atom action resource previous)
      (follower.answerDeferred atom action resource previous) (convoy.Echoes behind) := by
  unfold Tick.answerDeferred
  split
  · exact (follows.launch atom action resource).bind fun _ _ launched => leads_ok ⟨rfl, launched⟩
  · exact follows.stays atom .running .running
  · exact follows.stays atom .running .running
  · exact leads_ok ⟨rfl, follows.log _ _⟩
  · exact leads_ok ⟨rfl, follows⟩
  · exact leads_ok ⟨rfl, follows⟩

theorem answerPersistent (atom slot : Nat) (found : Option Nat) :
    Leads (leader.answerPersistent atom slot found) (follower.answerPersistent atom slot found)
      (convoy.Echoes behind) := by
  refine (leads_self _).bind fun _ _ _ => ?_
  have slots : follower.actor.slots = leader.actor.slots := follows.slots
  simp only [slots]
  split
  · exact leads_ok ⟨rfl, follows⟩
  · exact follows.stays atom .launch .running
  · exact follows.stays atom .running .running
  · exact leads_ok ⟨rfl, follows⟩
  · exact leads_ok ⟨rfl, follows⟩
  · exact leads_ok ⟨rfl, follows⟩

theorem visitImmediate {function : Nat}
    (stands : convoy.setting.shape.atom? atom = some (.immediate function)) :
    Leads (leader.visitImmediate convoy.setting atom function)
      (follower.visitImmediate (convoy.setting.watch watched) atom function)
      (convoy.Echoes behind) := by
  refine (follows.takeOutstanding stands rfl).bind
    fun ⟨previous, read⟩ ⟨again, other⟩ ⟨same, more⟩ => ?_
  obtain rfl : again = previous := same
  exact more.answerImmediate watched atom function again

theorem visitDeferred {action resource : Nat}
    (stands : convoy.setting.shape.atom? atom = some (.deferred action resource)) :
    Leads (leader.visitDeferred atom action resource)
      (follower.visitDeferred atom action resource) (convoy.Echoes behind) := by
  refine (follows.takeOutstanding stands rfl).bind
    fun ⟨previous, read⟩ ⟨again, other⟩ ⟨same, more⟩ => ?_
  obtain rfl : again = previous := same
  exact more.answerDeferred atom action resource again

theorem visitPersistent {slot : Nat}
    (stands : convoy.setting.shape.atom? atom = some (.persistent slot)) :
    Leads (leader.visitPersistent convoy.setting atom slot)
      (follower.visitPersistent (convoy.setting.watch watched) atom slot)
      (convoy.Echoes behind) := by
  refine (follows.takeOutstanding stands rfl).bind fun ⟨_, read⟩ ⟨_, other⟩ ⟨_, more⟩ => ?_
  refine (more.takeSlot watched atom).bind fun ⟨found, taken⟩ ⟨again, others⟩ ⟨same, last⟩ => ?_
  obtain rfl : again = found := same
  exact last.answerPersistent atom slot again

theorem deliver (watched : Bool) (result : Status) :
    convoy.Follows behind (leader.deliver convoy.setting atom result)
      (follower.deliver (convoy.setting.watch watched) atom result) := by
  have logged := follows.log (.actionVisited atom result) (.actionVisited atom result)
  exact (((logged.withStatus result).withCursor (atom + 1)).notify watched atom _).proceed .resume

/-- A visited action is followed. -/
theorem visitAction (watched : Bool) {node : Atom} (acts : node.isDecider = false)
    (stands : convoy.setting.shape.atom? atom = some node) :
    Leads (leader.visitAtom convoy.setting atom node)
      (follower.visitAtom (convoy.setting.watch watched) atom node) (convoy.Follows behind) := by
  have delivers (visit other : Status × Tick β) (echoes : convoy.Echoes behind visit other) :
      convoy.Follows behind (visit.2.deliver convoy.setting atom visit.1)
        (other.2.deliver (convoy.setting.watch watched) atom other.1) := by
    rw [echoes.1]
    exact echoes.2.deliver watched visit.1
  cases node with
  | immediate function =>
    exact (follows.visitImmediate stands).bind fun visit other echoes =>
      leads_ok (delivers visit other echoes)
  | deferred action resource =>
    exact (follows.visitDeferred stands).bind fun visit other echoes =>
      leads_ok (delivers visit other echoes)
  | persistent slot =>
    exact (follows.visitPersistent stands).bind fun visit other echoes =>
      leads_ok (delivers visit other echoes)
  | decider => cases acts

theorem resumption (frame : Frame) :
    Leads (leader.resumption frame) (follower.resumption frame) fun resumed other =>
      other.1 = resumed.1 ∧ other.2.1 = resumed.2.1 ∧
        convoy.Follows behind resumed.2.2 other.2.2 := by
  refine (leads_self _).bind fun child _ ⟨same, _⟩ => ?_
  subst same
  split
  · exact leads_ok ⟨rfl, rfl, follows⟩
  · exact leads_ok ⟨rfl, rfl, follows⟩
  · refine (follows.takeContinuation frame.atom).bind
      fun ⟨remembered, read⟩ ⟨again, other⟩ ⟨same, more⟩ => ?_
    obtain rfl : again = remembered := same
    refine leads_ok ?_
    unfold Tick.resumeAt
    split
    · exact ⟨rfl, rfl, more⟩
    · split
      · exact ⟨rfl, rfl, more⟩
      · exact ⟨rfl, rfl, more.log _ _⟩

/-- Where the leader has room for one more decider, it is entered by the follower as well. -/
theorem enterDecider (watched : Bool) (frame : Frame)
    (room : leader.machine.frames.isFull = false) :
    Leads (leader.enterDecider convoy.setting frame)
      (follower.enterDecider (convoy.setting.watch watched) frame) (convoy.Follows behind) := by
  have free : follower.machine.frames.isFull = false := by
    have frames := follows.machine.frames
    have within : leader.machine.frames.count ≤ leader.machine.frames.capacity :=
      leader.machine.frames.counter.within
    have apart : leader.machine.frames.count ≠ leader.machine.frames.capacity :=
      beq_eq_false_iff_ne.mp room
    have capacity := frames.capacity
    apply Buffer.isFull_eq_false
    rw [frames.count]
    omega
  unfold Tick.enterDecider
  simp only [room, free, Bool.false_eq_true, if_false]
  refine (leads_self _).bind fun _ _ ⟨same, _⟩ => ?_
  subst same
  refine (leads_self _).bind fun _ _ _ => ?_
  refine ((follows.withStatus .fail).resumption frame).bind
    fun ⟨start, resumed, read⟩ ⟨begins, frame_again, other⟩ ⟨same, same_frame, more⟩ => ?_
  obtain rfl : begins = start := same
  obtain rfl : frame_again = resumed := same_frame
  refine (more.machine.frames.push frame_again).bind fun frames others fits => leads_ok ?_
  have entered := (more.withFrames fits).withCursor begins
  exact (entered.notify watched frame_again.atom _).proceed .invoke

/-- A step at an atom is followed, unless the leader has no room for one more decider. -/
theorem invoke (watched : Bool) {after : Tick β}
    (invoked : leader.invoke convoy.setting = .ok after) (going : after.machine.command ≠ .error) :
    ∃ other, follower.invoke (convoy.setting.watch watched) = .ok other ∧
      convoy.Follows behind after other := by
  simp only [Tick.invoke, Setting.shape_watch, follows.machine.cursor] at invoked ⊢
  have noticed := follows.notify watched leader.machine.cursor (.enter ||| .fromTop)
  cases stands : convoy.setting.shape.atom? leader.machine.cursor with
  | none =>
    rw [stands] at invoked
    obtain rfl := Except.ok.inj invoked
    exact absurd rfl going
  | some node =>
    rw [stands] at invoked
    simp only at invoked ⊢
    cases decides : node.isDecider with
    | false => exact noticed.visitAction watched decides stands after invoked
    | true =>
      cases node with
      | decider rule stop =>
        have frame : (follower.notify (convoy.setting.watch watched) leader.machine.cursor
            (.enter ||| .fromTop)).frameFor leader.machine.cursor rule stop =
              (leader.notify convoy.setting leader.machine.cursor
                (.enter ||| .fromTop)).frameFor leader.machine.cursor rule stop := by
          unfold Tick.frameFor
          rw [noticed.machine.continuations.count, noticed.machine.requests.launchCount]
        simp only [Tick.visitAtom, frame] at invoked ⊢
        cases full : (leader.notify convoy.setting leader.machine.cursor
            (.enter ||| .fromTop)).machine.frames.isFull with
        | false => exact noticed.enterDecider watched _ full after invoked
        | true =>
          simp only [Tick.enterDecider, full, if_true] at invoked
          obtain rfl := Except.ok.inj invoked
          exact absurd rfl going
      | immediate | deferred | persistent => cases decides

theorem leaveDecider (watched : Bool) (frame : Frame) (child : Status) :
    Leads (leader.leaveDecider convoy.setting frame child)
      (follower.leaveDecider (convoy.setting.watch watched) frame child)
      (convoy.Follows behind) := by
  refine follows.machine.frames.pop.bind fun ⟨_, frames⟩ ⟨_, others⟩ ⟨_, fits⟩ => leads_ok ?_
  rw [fits.isEmpty]
  have left := ((follows.withStatus (frame.result child)).withFrames fits).log
    (.deciderLeft frame.atom (frame.result child)) (.deciderLeft frame.atom (frame.result child))
  exact (left.notify watched frame.atom _).proceed _

/-- The cancellation of an action is followed. -/
theorem cancelAtom (watched : Bool) {node : Atom} (acts : node.isDecider = false) :
    Leads (leader.cancelAtom convoy.setting atom node)
      (follower.cancelAtom (convoy.setting.watch watched) atom node) (convoy.Follows behind) := by
  cases node with
  | immediate function =>
    simp only [Tick.cancelAtom, Setting.shape_watch]
    cases convoy.setting.shape.function? function with
    | none => exact leads_ok follows
    | some action =>
      obtain ⟨returns, calls⟩ := follows.call watched atom function action .cancel
      refine leads_ok ?_
      unfold Tick.callCancel
      simp only [returns]
      split
      · exact calls
      · exact calls.log _ _
  | deferred action resource =>
    refine (follows.machine.requests.pushCancel _).bind fun requests others fits => leads_ok ?_
    have requested : convoy.Follows behind { leader with machine.requests := requests }
        { follower with machine.requests := others } :=
      follows.withMachine { follows.machine with requests := fits }
    exact requested.log _ _
  | persistent slot =>
    exact (follows.machine.changes.push _).bind fun changes others fits =>
      leads_ok (follows.withMachine { follows.machine with changes := fits })
  | decider => cases acts

theorem cancelAt (watched : Bool)
    (acts : (convoy.setting.shape.atom? atom).any Atom.isDecider = false) :
    Leads (leader.cancelAt convoy.setting atom)
      (follower.cancelAt (convoy.setting.watch watched) atom) (convoy.Follows behind) := by
  simp only [Tick.cancelAt, Setting.shape_watch]
  cases stands : convoy.setting.shape.atom? atom with
  | none => exact leads_ok (follows.log _ _)
  | some node =>
    rw [stands] at acts
    exact ((follows.notify watched atom _).cancelAtom watched acts).bind fun _ _ canceled =>
      leads_ok (canceled.notify watched atom _)

/-- The cancellation of actions is followed. -/
theorem cancelAll (watched : Bool) {indices : List Nat}
    (acts : ∀ index ∈ indices, (convoy.setting.shape.atom? index).any Atom.isDecider = false) :
    Leads (Tick.cancelAll convoy.setting indices leader)
      (Tick.cancelAll (convoy.setting.watch watched) indices follower) (convoy.Follows behind) := by
  induction indices generalizing leader follower with
  | nil => exact leads_ok follows
  | cons index indices ih =>
    exact (follows.cancelAt watched (acts index List.mem_cons_self)).bind fun _ _ canceled =>
      ih canceled fun other member => acts other (List.mem_cons_of_mem _ member)

/-- Where the leader cancels the actions only, a follower comes upon the first decider. -/
theorem cancelAll_decider (watched : Bool) {indices : List Nat}
    (meets : ∃ index ∈ indices, (convoy.setting.shape.atom? index).any Atom.isDecider = true)
    {after : Tick β}
    (canceled : Tick.cancelAll convoy.setting
      (indices.filter fun index => !(convoy.setting.shape.atom? index).any Atom.isDecider) leader =
        .ok after) :
    Tick.cancelAll (convoy.setting.watch watched) indices follower = .error .deciderCanceled := by
  induction indices generalizing leader follower with
  | nil =>
    obtain ⟨index, member, -⟩ := meets
    cases member
  | cons index indices ih =>
    rw [Tick.cancelAll]
    cases decides : (convoy.setting.shape.atom? index).any Atom.isDecider with
    | true =>
      obtain ⟨node, stands, decider⟩ := (Option.any_eq_true _ _).mp decides
      cases node with
      | decider rule stop =>
        simp only [Tick.cancelAt, Setting.shape_watch, stands, Tick.cancelAtom]
        rfl
      | immediate | deferred | persistent => cases decider
    | false =>
      rw [List.filter_cons_of_pos (by rw [decides]; rfl), Tick.cancelAll] at canceled
      cases first : leader.cancelAt convoy.setting index with
      | error fault =>
        rw [first] at canceled
        cases canceled
      | ok middle =>
        rw [first] at canceled
        obtain ⟨other, again, more⟩ := follows.cancelAt watched decides middle first
        rw [again]
        obtain ⟨found, member, decider⟩ := meets
        rcases List.mem_cons.mp member with rfl | later
        · rw [decides] at decider
          cases decider
        · exact ih more ⟨found, later, decider⟩ canceled

end

end Convoy.Follows

end BehaviorTree
