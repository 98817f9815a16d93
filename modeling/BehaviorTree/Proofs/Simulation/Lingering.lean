import BehaviorTree.Proofs.Ordered.Cursor
import BehaviorTree.Proofs.Simulation.Resume
import BehaviorTree.Proofs.Simulation.Surrounding

namespace BehaviorTree
open Checked
variable {β : Type}

namespace Machine

/-- The open deciders, outermost first. -/
def openFrames (machine : Machine) : List Frame := machine.frames.contents.toList

/-- No decider is open when a traversal begins. -/
theorem openFrames_reset (machine : Machine) (command : Command) :
    ({ machine.reset with command } : Machine).openFrames = [] := by
  show machine.frames.clear.contents.toList = []
  rw [Buffer.contents_clear]

end Machine

namespace Tick
variable {tick middle after : Tick β} {setting : Setting β}

/-- The traversal stands where it stood, nothing becomes pending, and what has been recorded of
sequences and launched is still there. -/
structure Lingers (before after : Tick β) : Prop where
  cursor : after.machine.cursor = before.machine.cursor
  frames : after.machine.frames = before.machine.frames
  settled : before.machine.pending.isEmpty = true → after.machine.pending.isEmpty = true
  continuations : after.machine.continuations = before.machine.continuations
  launches : before.machine.requests.launchCount ≤ after.machine.requests.launchCount
  remembered : after.actor.continuations = before.actor.continuations

namespace Lingers

theorem refl (tick : Tick β) : tick.Lingers tick := ⟨rfl, rfl, id, rfl, Nat.le_refl _, rfl⟩

theorem trans (first : tick.Lingers middle) (second : middle.Lingers after) : tick.Lingers after :=
  ⟨second.cursor.trans first.cursor, second.frames.trans first.frames,
    fun settled => second.settled (first.settled settled),
    second.continuations.trans first.continuations, Nat.le_trans first.launches second.launches,
    second.remembered.trans first.remembered⟩

theorem openFrames (lingers : tick.Lingers after) :
    after.machine.openFrames = tick.machine.openFrames :=
  congrArg (fun frames => frames.contents.toList) lingers.frames

/-- Only the machine and what the actor remembers of sequences matter. -/
theorem of_same (machine : after.machine = tick.machine)
    (remembered : after.actor.continuations = tick.actor.continuations) : tick.Lingers after := by
  refine ⟨?_, ?_, ?_, ?_, ?_, remembered⟩
  all_goals rw [machine]
  exact id

end Lingers

theorem lingers_emit (tick : Tick β) (event : Event β) : tick.Lingers (tick.emit event) :=
  .of_same rfl rfl

theorem lingers_log (tick : Tick β) (event : LogEvent) : tick.Lingers (tick.log event) :=
  .of_same rfl rfl

theorem lingers_notify (tick : Tick β) (setting : Setting β) (atom : Nat) (flags : Flags) :
    tick.Lingers (tick.notify setting atom flags) := by
  unfold notify
  split
  · exact tick.lingers_emit _
  · exact .refl tick

theorem lingers_call (tick : Tick β) (setting : Setting β) (atom function : Nat)
    (action : Action β) (requested : Status) :
    tick.Lingers (tick.call setting atom function action requested).2 :=
  .of_same rfl rfl

theorem lingers_takeOutstanding (tick : Tick β) (atom : Nat) :
    (tick.takeOutstanding atom).Ensures fun read => tick.Lingers read.2 :=
  (ensures_true _).bind fun _ _ => ensures_pure.mpr ⟨rfl, rfl, id, rfl, Nat.le_refl _, rfl⟩

theorem lingers_takeSlot (tick : Tick β) (setting : Setting β) (atom : Nat) :
    (tick.takeSlot setting atom).Ensures fun read => tick.Lingers read.2 :=
  (ensures_true _).bind fun _ _ => ensures_pure.mpr ⟨rfl, rfl, id, rfl, Nat.le_refl _, rfl⟩

theorem lingers_pushOutstanding (tick : Tick β) (atom : Nat) (status : Status) :
    (tick.pushOutstanding atom status).Ensures tick.Lingers :=
  (ensures_true _).bind fun _ _ => ensures_pure.mpr ⟨rfl, rfl, id, rfl, Nat.le_refl _, rfl⟩

/-- All that an action does to answer lingers; a launch adds to what is launched. -/
theorem lingers_kept : KeptInAnswers (Lingers : Tick β → Tick β → Prop) where
  refl := .refl
  trans := .trans
  log tick event _ := tick.lingers_log event
  call := lingers_call
  pushLaunch tick _ := (ensures_self _).mono fun requests pushed => by
    have launches : tick.machine.requests.launchCount ≤ requests.launchCount := by
      rw [← requests.size_launches, (RequestQueue.pushLaunch_lists pushed).1, Array.size_push,
        RequestQueue.size_launches]
      exact Nat.le_succ _
    exact ⟨rfl, rfl, id, rfl, launches, rfl⟩

theorem Attends.lingers {atom : Nat} (attends : tick.Attends Lingers atom after) :
    tick.Lingers after := by
  obtain ⟨read, taken, responds⟩ := attends
  exact (tick.lingers_takeOutstanding atom read taken).trans
    (lingers_kept.of_responds lingers_pushOutstanding responds)

/-- A visit of an action lingers there until it delivers. -/
theorem lingers_visitAtom (tick : Tick β) (setting : Setting β) (index : Nat) (leaf : Leaf) :
    (tick.visitAtom setting index leaf.atom).Ensures fun after =>
      ∃ visited result, tick.Lingers visited ∧ after = visited.deliver setting index result := by
  have acts : leaf.atom.isDecider = false := by cases leaf <;> rfl
  refine (lingers_kept.visitAtom lingers_takeSlot tick setting index acts).mono ?_
  rintro after ⟨visited, result, attends, delivered⟩
  exact ⟨visited, result, attends.lingers, delivered⟩

/-- A cancel takes no launch back. -/
theorem lingers_cancelAtom (tick : Tick β) (setting : Setting β) (index : Nat) (atom : Atom) :
    (tick.cancelAtom setting index atom).Ensures tick.Lingers := by
  cases atom with
  | immediate function =>
    simp only [cancelAtom]
    split
    · next action known =>
      have called := tick.lingers_call setting index function action .cancel
      refine ensures_ok.mpr ?_
      unfold callCancel
      simp only
      split
      · exact called
      · exact called.trans (lingers_log _ _)
    · exact ensures_ok.mpr (.refl tick)
  | deferred action resource =>
    refine (ensures_self _).bind fun requests pushed => ensures_pure.mpr ?_
    have launches : requests.launchCount = tick.machine.requests.launchCount := by
      rw [← requests.size_launches, (RequestQueue.pushCancel_lists pushed).1,
        RequestQueue.size_launches]
    exact ⟨rfl, rfl, id, rfl, Nat.le_of_eq launches.symm, rfl⟩
  | persistent slot =>
    exact (ensures_true _).bind fun changes _ =>
      ensures_pure.mpr ⟨rfl, rfl, id, rfl, Nat.le_refl _, rfl⟩
  | decider rule stop => exact ensures_error

theorem lingers_cancelAt (tick : Tick β) (setting : Setting β) (index : Nat) :
    (tick.cancelAt setting index).Ensures tick.Lingers := by
  unfold cancelAt
  split
  · exact ensures_ok.mpr (tick.lingers_log _)
  · refine (lingers_cancelAtom _ setting index _).bind fun canceled lingers => ?_
    exact ensures_pure.mpr
      (((tick.lingers_notify setting index _).trans lingers).trans (lingers_notify _ _ _ _))

theorem lingers_cancelAll (setting : Setting β) (indices : List Nat) (tick : Tick β) :
    (cancelAll setting indices tick).Ensures tick.Lingers :=
  ensures_cancelAll (fun tick index => tick.lingers_cancelAt setting index) .refl .trans indices
    tick

/-- After a drain nothing is pending. -/
theorem lingers_drain (tick : Tick β) (setting : Setting β) :
    (tick.drain setting).Ensures fun after =>
      tick.Lingers after ∧ after.machine.pending.isEmpty = true := by
  refine (tick.drain_clears setting).mono fun after clears => ?_
  cases clears with
  | idle idle => exact ⟨.refl tick, idle⟩
  | @cancels _ _ canceled _ _ cancels _ =>
    have lingers := lingers_cancelAll setting _ _ _ cancels
    have settled : canceled.machine.pending.isEmpty = true := lingers.settled rfl
    exact ⟨⟨lingers.cursor, lingers.frames, fun _ => settled, lingers.continuations,
      lingers.launches, lingers.remembered⟩, settled⟩

/-- What is read of a sequence is what the actor remembers of it. -/
theorem takeContinuation_tells (tick : Tick β) (atom : Nat)
    (ready : Ascending tick.actor.continuations.entries.toList) :
    (tick.takeContinuation atom).Ensures fun read => tick.Lingers read.2 ∧
      ∀ child, read.1 = some child → tick.actor.continuations.find? atom = some child := by
  refine (ensures_self _).bind fun ⟨position, cursor⟩ taken => ensures_pure.mpr
    ⟨⟨rfl, rfl, id, rfl, Nat.le_refl _, rfl⟩, fun child read => ?_⟩
  cases position with
  | none => cases read
  | some found =>
    have hit := Ordered.keyAt?_of_take taken
    rw [SparseStates.find?_eq_some_iff ready]
    obtain ⟨entry, present, same⟩ := Option.map_eq_some_iff.mp hit
    obtain ⟨inside, rfl⟩ := Array.getElem?_eq_some_iff.mp present
    simp only [Option.bind_some, present, Option.map_some, Option.some.injEq] at read
    subst read
    rw [← same]
    exact Array.getElem_mem_toList inside

/-- A decider starts at its first child, unless it is a sequence of which the actor remembers a
later one. -/
theorem resumption_tells (tick : Tick β) {frame : Frame} {rule : Rule}
    (fresh : frame.progress = Frame.initialProgress (frame.atom + 1) rule)
    (ready : Ascending tick.actor.continuations.entries.toList) :
    (tick.resumption frame).Ensures fun resumed => tick.Lingers resumed.2.2 ∧
      resumed.2.1 = { frame with progress := Frame.initialProgress resumed.1 rule } ∧
      (resumed.1 = frame.atom + 1 ∨ rule = .sequence ∧ frame.atom + 1 ≤ resumed.1 ∧
        resumed.1 < frame.stop ∧
          tick.actor.continuations.find? frame.atom = some resumed.1) := by
  have begins : frame =
      { frame with progress := Frame.initialProgress (frame.atom + 1) rule } := by
    rw [← fresh]
  refine (ensures_firstChild frame).bind fun child same => ?_
  obtain rfl := same
  rw [fresh]
  cases rule with
  | dynamicPriority | concurrent =>
    exact ensures_pure.mpr ⟨.refl tick, begins, .inl rfl⟩
  | sequence =>
    simp only [Frame.initialProgress]
    refine (tick.takeContinuation_tells frame.atom ready).bind fun taken told =>
      ensures_pure.mpr ?_
    obtain ⟨remembered, read⟩ := taken
    obtain ⟨lingers, tells⟩ := told
    simp only [resumeAt]
    split
    · exact ⟨lingers, begins, .inl rfl⟩
    · split
      · next child inside =>
        exact ⟨lingers, rfl, .inr ⟨trivial, inside.1, inside.2, tells _ rfl⟩⟩
      · exact ⟨lingers.trans (lingers_log _ _), begins, .inl rfl⟩

/-- A decider is entered: its frame opens, and the traversal moves on to one of its children. -/
structure Opens (frame : Frame) (rule : Rule) (before after : Tick β) : Prop where
  command : after.machine.command = .invoke
  frames : after.machine.openFrames = before.machine.openFrames ++
    [{ frame with progress := Frame.initialProgress after.machine.cursor rule }]
  starts : after.machine.cursor = frame.atom + 1 ∨ rule = .sequence ∧
    frame.atom + 1 ≤ after.machine.cursor ∧ after.machine.cursor < frame.stop ∧
      before.actor.continuations.find? frame.atom = some after.machine.cursor
  settled : before.machine.pending.isEmpty = true → after.machine.pending.isEmpty = true
  continuations : after.machine.continuations = before.machine.continuations
  launches : before.machine.requests.launchCount ≤ after.machine.requests.launchCount
  remembered : after.actor.continuations = before.actor.continuations

/-- Unless there is no room for its frame, a decider opens. -/
theorem enterDecider_opens (tick : Tick β) (setting : Setting β) {frame : Frame} {rule : Rule}
    (fresh : frame.progress = Frame.initialProgress (frame.atom + 1) rule)
    (ready : Ascending tick.actor.continuations.entries.toList) :
    (tick.enterDecider setting frame).Ensures fun after =>
      after.machine.command = .error ∨ tick.Opens frame rule after := by
  unfold enterDecider
  split
  · exact ensures_pure.mpr (.inl rfl)
  · refine (ensures_true _).bind fun _ _ => (ensures_true _).bind fun _ _ => ?_
    refine (tick.failing.resumption_tells fresh ready).bind fun ⟨start, opened, read⟩
      ⟨lingers, same, starts⟩ => ?_
    refine (Buffer.ensures_push _ _).bind fun frames ⟨contents, _⟩ => ensures_pure.mpr (.inr ?_)
    let moved : Tick β := { read with machine.frames := frames, machine.cursor := start }
    have noticed := moved.lingers_notify setting opened.atom (.leave ||| .fromTop)
    have cursor : (moved.notify setting opened.atom (.leave ||| .fromTop)).machine.cursor = start :=
      noticed.cursor
    have held : frames.contents.toList = tick.machine.openFrames ++ [opened] := by
      rw [contents, lingers.frames, Array.toList_push]
      rfl
    constructor
    case command => rfl
    case frames =>
      simp only at same
      rw [← cursor] at same
      rw [proceed, ← same, ← held]
      exact noticed.openFrames
    case starts =>
      simp only at starts
      rw [← cursor] at starts
      exact starts
    case settled => exact fun settled => noticed.settled (lingers.settled settled)
    case continuations => exact noticed.continuations.trans lingers.continuations
    case launches => exact Nat.le_trans lingers.launches noticed.launches
    case remembered => exact noticed.remembered.trans lingers.remembered

end Tick

namespace Machine
variable {machine : Machine} {frame : Frame}

/-- A decider that visits no more children moves on to its end. It may give up its span, or what of
it lies at the cursor or behind, and takes back no more than what was emitted since its entry. -/
structure Ends (frame : Frame) (before after : Machine) : Prop where
  cursor : after.cursor = frame.stop
  frames : after.frames = before.frames
  pending : after.pending = before.pending ∨ ∃ start,
    (start = before.cursor ∨ start = frame.atom) ∧
      after.pending = before.pending.cover ⟨start, frame.stop⟩
  recorded : min frame.continuationMark before.continuations.count ≤ after.continuations.count
  launched : min frame.launchMark before.requests.launchCount ≤ after.requests.launchCount

/-- A decider goes on, or ends. -/
theorem Notes.goesOn_or_ends {absorbed : Frame × Machine} (notes : machine.Notes frame absorbed) :
    (∃ progress, frame.progress.Heeds machine.status machine.cursor progress ∧
      absorbed = ({ frame with progress }, machine)) ∨
    absorbed.1 = frame ∧ machine.Ends frame absorbed.2 := by
  have kept := Nat.min_le_right frame.continuationMark machine.continuations.count
  have spared := Nat.min_le_right frame.launchMark machine.requests.launchCount
  cases notes with
  | goesOn heeds => exact .inl ⟨_, heeds, rfl⟩
  | @records reached continuations progress active pushed =>
    have more : machine.continuations.count ≤ continuations.count := by
      rw [← continuations.size_contents, Buffer.contents_push pushed, Array.size_push,
        Buffer.size_contents]
      exact Nat.le_succ _
    exact .inr ⟨rfl, rfl, rfl, .inl rfl, Nat.le_trans kept more, spared⟩
  | fails => exact .inr ⟨rfl, rfl, rfl, .inl rfl, kept, spared⟩
  | chooses => exact .inr ⟨rfl, rfl, rfl, .inr ⟨_, .inl rfl, rfl⟩, kept, spared⟩
  | @takesBack aggregate continuations requests progress failed cut revoked =>
    have recorded : min frame.continuationMark machine.continuations.count ≤
        continuations.count := by
      rw [← continuations.size_contents, Buffer.contents_truncate cut]
      simp
    have launched : min frame.launchMark machine.requests.launchCount ≤ requests.launchCount := by
      rw [← requests.size_launches, (RequestQueue.truncateLaunches_lists revoked).1]
      simp
    exact .inr ⟨rfl, rfl, rfl, .inr ⟨_, .inr rfl, rfl⟩, recorded, launched⟩

end Machine

namespace Tick
variable {tick after : Tick β} {setting : Setting β}

/-- The innermost decider is left; the deciders around it stay open. -/
structure Closes (outer : List Frame) (before after : Tick β) : Prop where
  command : after.machine.command = .afterLeave outer
  frames : after.machine.openFrames = outer
  cursor : after.machine.cursor = before.machine.cursor
  pending : after.machine.pending = before.machine.pending
  continuations : after.machine.continuations = before.machine.continuations
  launches : after.machine.requests = before.machine.requests
  remembered : after.actor.continuations = before.actor.continuations

theorem leaveDecider_closes (tick : Tick β) (setting : Setting β) {outer : List Frame}
    {frame last : Frame} (held : tick.machine.openFrames = outer ++ [last]) (child : Status) :
    (tick.leaveDecider setting frame child).Ensures (tick.Closes outer) := by
  refine (Buffer.ensures_pop _).bind fun ⟨popped, frames⟩ ⟨contents, _⟩ => ensures_pure.mpr ?_
  have rest : frames.contents.toList = outer := by
    have split : frames.contents.toList ++ [popped] = outer ++ [last] := by
      rw [← held, Machine.openFrames, contents, Array.toList_push]
    exact (List.append_inj' split rfl).1
  let left : Tick β :=
    { tick with machine.status := frame.result child, machine.frames := frames }
  let logged := left.log (.deciderLeft frame.atom (frame.result child))
  have noticed := logged.lingers_notify setting frame.atom (.leave ||| .fromBottom)
  have machine := logged.machine_notify setting frame.atom (.leave ||| .fromBottom)
  constructor
  case command =>
    have empty := Buffer.isEmpty_iff frames
    rw [rest] at empty
    show (if frames.isEmpty then Command.cleanup else Command.resume) = .afterLeave outer
    simp only [Command.afterLeave, empty]
  case frames =>
    rw [← rest]
    exact congrArg Machine.openFrames machine
  case cursor => exact noticed.cursor
  case pending => exact (congrArg Machine.pending machine).trans rfl
  case continuations => exact noticed.continuations
  case launches => exact (congrArg Machine.requests machine).trans rfl
  case remembered => exact noticed.remembered

/-- The innermost decider goes on, and nothing is pending. -/
structure GoesOn (frames : List Frame) (before after : Tick β) : Prop where
  command : after.machine.command = .invoke
  frames : after.machine.openFrames = frames
  settled : after.machine.pending.isEmpty = true
  cursor : after.machine.cursor = before.machine.cursor
  continuations : after.machine.continuations = before.machine.continuations
  launches : before.machine.requests.launchCount ≤ after.machine.requests.launchCount
  remembered : after.actor.continuations = before.actor.continuations

theorem nextChild_goesOn (tick : Tick β) (setting : Setting β) {outer : List Frame}
    {frame last : Frame} (held : tick.machine.openFrames = outer ++ [last]) :
    (tick.nextChild setting frame).Ensures (tick.GoesOn (outer ++ [frame])) := by
  let moved : Tick β := { tick with machine.frames := tick.machine.frames.setTop frame }
  have replaced : moved.machine.openFrames = outer ++ [frame] :=
    (Buffer.setTop_last held frame).1
  have noticed := moved.lingers_notify setting frame.atom (.leave ||| .fromTop)
  refine (lingers_drain _ setting).bind fun drained ⟨lingers, settled⟩ => ensures_pure.mpr ?_
  have reached := noticed.trans lingers
  constructor
  case command => rfl
  case frames =>
    rw [← replaced]
    exact reached.openFrames
  case settled => exact settled
  case cursor => exact reached.cursor
  case continuations => exact reached.continuations
  case launches => exact reached.launches
  case remembered => exact reached.remembered

/-- The clean-up leaves nothing pending and no decider open. -/
theorem cleanup_settles (tick : Tick β) (setting : Setting β)
    (closed : tick.machine.openFrames = []) :
    (tick.cleanup setting).Ensures fun after => after.machine.command = .done ∧
      after.machine.openFrames = [] ∧ after.machine.pending.isEmpty = true := by
  refine (tick.lingers_drain setting).bind fun drained drains => ?_
  obtain ⟨lingers, settled⟩ := drains
  have empty : drained.machine.frames.count = 0 := by
    rw [← Buffer.length_contents, lingers.frames]
    exact congrArg List.length closed
  have restored (slots : Array Frame) : (drained.machine.frames.restore slots).contents = #[] := by
    apply Array.eq_empty_of_size_eq_zero
    rw [Buffer.size_contents]
    unfold Buffer.restore
    split <;> exact empty
  have orders : drained.reorder.Ensures fun after => after.machine.openFrames = [] ∧
      after.machine.pending = drained.machine.pending := by
    refine (ensures_true _).bind fun slots _ => (ensures_true _).bind fun continuations _ => ?_
    refine (ensures_true _).bind fun changes _ => ?_
    have held := congrArg Array.toList (restored continuations.slots)
    simp only
    split <;> exact ensures_pure.mpr ⟨held, rfl⟩
  refine orders.bind fun ordered sorted => (ensures_true _).bind fun _ _ => ?_
  obtain ⟨held, same⟩ := sorted
  exact ensures_pure.mpr ⟨rfl, held, same ▸ settled⟩

end Tick

end BehaviorTree
