import BehaviorTree.Proofs.Simulation.Absorption
import BehaviorTree.Proofs.Simulation.Cleaning
import BehaviorTree.Proofs.Simulation.Footprint
import BehaviorTree.Proofs.Simulation.Mirror

namespace BehaviorTree
open Checked Ordered
variable {β : Type}

/-- What a tick searches of the actor, and how far the cursors have come. -/
structure Scan where
  outstanding : SparseStates Status
  continuations : SparseStates Nat
  outstandingCursor : Nat
  continuationCursor : Nat
  slotCursor : Nat

namespace Scan

/-- The same is searched, and no cursor has moved back. -/
structure GoesOn (before after : Scan) : Prop where
  outstanding : after.outstanding = before.outstanding
  continuations : after.continuations = before.continuations
  outstandingCursor : before.outstandingCursor ≤ after.outstandingCursor
  continuationCursor : before.continuationCursor ≤ after.continuationCursor
  slotCursor : before.slotCursor ≤ after.slotCursor

theorem GoesOn.refl (scan : Scan) : scan.GoesOn scan :=
  ⟨rfl, rfl, Nat.le_refl _, Nat.le_refl _, Nat.le_refl _⟩

theorem GoesOn.trans {first second third : Scan} (before : first.GoesOn second)
    (behind : second.GoesOn third) : first.GoesOn third :=
  ⟨behind.outstanding.trans before.outstanding, behind.continuations.trans before.continuations,
    Nat.le_trans before.outstandingCursor behind.outstandingCursor,
    Nat.le_trans before.continuationCursor behind.continuationCursor,
    Nat.le_trans before.slotCursor behind.slotCursor⟩

/-- The arrays ascend, and no cursor has passed an atom from a position on. -/
structure Ready (shape : Shape β) (position : Nat) (scan : Scan) : Prop where
  ascending : Ascending scan.outstanding.entries.toList
  remembered : Ascending scan.continuations.entries.toList
  outstanding : Awaits scan.outstanding.entries position scan.outstandingCursor
  continuation : Awaits scan.continuations.entries position scan.continuationCursor
  slot : Awaits shape.slotAtoms position scan.slotCursor

theorem Ready.later {shape : Shape β} {position other : Nat} {scan : Scan}
    (ready : scan.Ready shape position) (forward : position ≤ other) : scan.Ready shape other :=
  { ready with
    outstanding := ready.outstanding.later forward
    continuation := ready.continuation.later forward
    slot := ready.slot.later forward }

/-- What the actor has outstanding in a span is passed. -/
def pass (scan : Scan) (span : Span) : Scan :=
  let first := advance scan.outstanding.entries span.start scan.outstandingCursor
  { scan with
    outstandingCursor := first + partitionPoint (scan.outstanding.entries.drop first)
      fun entry => decide (entry.atom < span.stop) }

theorem goesOn_pass (scan : Scan) (span : Span) : scan.GoesOn (scan.pass span) :=
  { GoesOn.refl scan with
    outstandingCursor := Nat.le_trans (le_advance _ _ _) (Nat.le_add_right _ _) }

/-- A span that ends before the position holds nothing that is still sought. -/
theorem Ready.pass {shape : Shape β} {position : Nat} {scan : Scan} {span : Span}
    (ready : scan.Ready shape position) (nonempty : span.isEmpty = false)
    (behind : span.stop ≤ position) : (scan.pass span).Ready shape position :=
  { ready with
    outstanding := ready.outstanding.window ready.ascending
      ((Span.isEmpty_eq_false_iff _).mp nonempty) behind }

end Scan

namespace Tick
variable {tick middle after : Tick β} {setting : Setting β} {position : Nat}

/-- The scan as it stands. -/
def scan (tick : Tick β) : Scan where
  outstanding := tick.actor.outstanding
  continuations := tick.actor.continuations
  outstandingCursor := tick.machine.outstandingCursor
  continuationCursor := tick.machine.continuationCursor
  slotCursor := tick.machine.slotCursor

theorem scan_proceed (tick : Tick β) (command : Command) :
    (tick.proceed command).scan = tick.scan :=
  rfl

theorem scan_notify (tick : Tick β) (setting : Setting β) (atom : Nat) (flags : Flags) :
    (tick.notify setting atom flags).scan = tick.scan := by
  unfold notify
  split <;> rfl

theorem scan_deliver (tick : Tick β) (setting : Setting β) (atom : Nat) (result : Status) :
    (tick.deliver setting atom result).scan = tick.scan := by
  simp only [deliver, scan_proceed, scan_notify]
  rfl

theorem scan_pushOutstanding (tick : Tick β) (atom : Nat) (status : Status) :
    (tick.pushOutstanding atom status).Ensures fun after => after.scan = tick.scan :=
  (ensures_true _).bind fun _ _ => ensures_pure.mpr rfl

/-- To answer, an action searches nothing. -/
theorem scan_kept : KeptInAnswers fun before after : Tick β => after.scan = before.scan where
  refl _ := rfl
  trans first second := second.trans first
  log _ _ _ := rfl
  call _ _ _ _ _ _ := rfl
  pushLaunch _ _ := fun _ _ => rfl

theorem scan_answerImmediate (tick : Tick β) (setting : Setting β) (atom function : Nat)
    (previous : Option Status) :
    (tick.answerImmediate setting atom function previous).Ensures fun answer =>
      answer.2.scan = tick.scan :=
  (scan_kept.answerImmediate tick setting atom function previous).mono fun _ =>
    scan_kept.of_responds scan_pushOutstanding

theorem scan_answerDeferred (tick : Tick β) (atom action resource : Nat)
    (previous : Option Status) :
    (tick.answerDeferred atom action resource previous).Ensures fun answer =>
      answer.2.scan = tick.scan :=
  (scan_kept.answerDeferred tick atom action resource previous).mono fun _ =>
    scan_kept.of_responds scan_pushOutstanding

theorem scan_answerPersistent (tick : Tick β) (atom slot : Nat) (found : Option Nat) :
    (tick.answerPersistent atom slot found).Ensures fun answer => answer.2.scan = tick.scan :=
  (scan_kept.answerPersistent tick atom slot found).mono fun _ =>
    scan_kept.of_responds scan_pushOutstanding

theorem scan_resumeAt (tick : Tick β) (frame : Frame) (firstChild : Nat)
    (remembered : Option Nat) :
    (tick.resumeAt frame firstChild remembered).2.2.scan = tick.scan := by
  unfold resumeAt
  split
  · rfl
  · split <;> rfl

theorem scan_openAt (tick : Tick β) (setting : Setting β) (start : Nat) (frame : Frame) :
    (tick.openAt setting start frame).Ensures fun after => after.scan = tick.scan := by
  refine (ensures_true _).bind fun frames _ => ensures_pure.mpr ?_
  rw [scan_proceed, scan_notify]
  rfl

theorem scan_cancelAtom (tick : Tick β) (setting : Setting β) (index : Nat) (atom : Atom) :
    (tick.cancelAtom setting index atom).Ensures fun after => after.scan = tick.scan := by
  cases atom with
  | immediate function =>
    simp only [cancelAtom]
    split
    · refine ensures_ok.mpr ?_
      unfold callCancel
      simp only
      split <;> rfl
    · exact ensures_ok.mpr rfl
  | deferred action resource => exact (ensures_true _).bind fun _ _ => ensures_pure.mpr rfl
  | persistent slot => exact (ensures_true _).bind fun _ _ => ensures_pure.mpr rfl
  | decider rule stop => exact ensures_error

theorem scan_cancelAt (tick : Tick β) (setting : Setting β) (index : Nat) :
    (tick.cancelAt setting index).Ensures fun after => after.scan = tick.scan := by
  unfold cancelAt
  split
  · exact ensures_ok.mpr rfl
  · refine (scan_cancelAtom _ setting index _).bind fun canceled same => ensures_pure.mpr ?_
    rw [scan_notify, same, scan_notify]

theorem scan_cancelAll (setting : Setting β) (indices : List Nat) (tick : Tick β) :
    (cancelAll setting indices tick).Ensures fun after => after.scan = tick.scan :=
  ensures_cancelAll (fun tick index => tick.scan_cancelAt setting index) (fun _ => rfl)
    (fun first second => second.trans first) indices tick

/-- A drain passes what is pending. -/
theorem scan_drain (tick : Tick β) (setting : Setting β) :
    (tick.drain setting).Ensures fun after => after.scan =
      if tick.machine.pending.isEmpty then tick.scan else tick.scan.pass tick.machine.pending := by
  refine (tick.drain_clears setting).mono fun after clears => ?_
  cases clears with
  | idle idle => rw [if_pos idle]
  | cancels busy canceled _ =>
    rw [if_neg (Bool.eq_false_iff.mp busy)]
    exact scan_cancelAll setting _ _ _ canceled

theorem goesOn_drain (tick : Tick β) (setting : Setting β) :
    (tick.drain setting).Ensures fun after => tick.scan.GoesOn after.scan := by
  refine (tick.scan_drain setting).mono fun after same => ?_
  rw [same]
  split
  · exact .refl _
  · exact tick.scan.goesOn_pass _

theorem scan_reorder (tick : Tick β) :
    tick.reorder.Ensures fun after => after.scan = tick.scan := by
  refine tick.reorder_reorders.mono fun after reorders => ?_
  cases reorders with
  | silently rearranges | reporting rearranges =>
    cases rearranges
    rfl

theorem scan_leaveDecider (tick : Tick β) (setting : Setting β) (frame : Frame) (child : Status) :
    (tick.leaveDecider setting frame child).Ensures fun after => after.scan = tick.scan := by
  refine (ensures_true _).bind fun ⟨_, frames⟩ _ => ensures_pure.mpr ?_
  rw [scan_proceed, scan_notify]
  rfl

/-- To take note of a status is no search. -/
theorem scan_absorb (tick : Tick β) (frame : Frame) :
    (tick.machine.absorb frame).Ensures fun absorbed =>
      ({ tick with machine := absorbed.2 } : Tick β).scan = tick.scan := by
  refine (tick.machine.absorb_notes frame).mono fun absorbed notes => ?_
  cases notes <;> rfl

/-- The scan has gone on, and what lies from a position on can still be found. -/
structure Seeks (shape : Shape β) (position : Nat) (before after : Tick β) : Prop where
  goesOn : before.scan.GoesOn after.scan
  ready : after.scan.Ready shape position

namespace Seeks
variable {shape : Shape β}

theorem of_same (ready : tick.scan.Ready shape position) (same : after.scan = tick.scan) :
    Seeks shape position tick after :=
  ⟨same ▸ .refl _, same ▸ ready⟩

theorem trans (first : Seeks shape position tick middle) {other : Nat}
    (second : Seeks shape other middle after) : Seeks shape other tick after :=
  ⟨first.goesOn.trans second.goesOn, second.ready⟩

/-- What is no search changes nothing. -/
theorem stay (seeks : Seeks shape position tick middle) (same : after.scan = middle.scan) :
    Seeks shape position tick after :=
  seeks.trans (.of_same seeks.ready same)

end Seeks

/-- A drain of what lies behind a position passes nothing that lies ahead. -/
theorem seeks_drain (ready : tick.scan.Ready setting.shape position)
    (ends : tick.machine.pending.isEmpty = false → tick.machine.pending.stop ≤ position) :
    (tick.drain setting).Ensures (Seeks setting.shape position tick) := by
  refine ((tick.goesOn_drain setting).and (tick.scan_drain setting)).mono fun after drains => ?_
  obtain ⟨goes, same⟩ := drains
  refine ⟨goes, ?_⟩
  rw [same]
  split
  · exact ready
  · next busy =>
    rw [Bool.not_eq_true] at busy
    exact ready.pass busy (ends busy)

theorem seeks_nextChild (ready : tick.scan.Ready setting.shape position)
    (ends : tick.machine.pending.isEmpty = false → tick.machine.pending.stop ≤ position)
    (frame : Frame) :
    (tick.nextChild setting frame).Ensures (Seeks setting.shape position tick) := by
  let moved : Tick β := { tick with machine.frames := tick.machine.frames.setTop frame }
  have noticed : Seeks setting.shape position tick
      (moved.notify setting frame.atom (.leave ||| .fromTop)) :=
    .of_same ready (scan_notify moved setting frame.atom _)
  have drains := seeks_drain noticed.ready (by rwa [machine_notify])
  exact drains.bind fun drained seeks => ensures_pure.mpr ((noticed.trans seeks).stay rfl)

/-- What is looked up of an action is what the actor remembers of it. -/
theorem takeOutstanding_find? (ready : tick.scan.Ready setting.shape position) {atom : Nat}
    (ahead : position ≤ atom) :
    ∃ read, tick.takeOutstanding atom = .ok (tick.actor.outstanding.find? atom, read) ∧
      read.machine.slotCursor = tick.machine.slotCursor ∧
      Seeks setting.shape (atom + 1) tick read := by
  have ascending : Ascending tick.actor.outstanding.entries.toList := ready.ascending
  have awaited : Awaits tick.actor.outstanding.entries position tick.machine.outstandingCursor :=
    ready.outstanding
  obtain ⟨found, cursor, taken, forward, awaits, delivered⟩ := awaited.take ascending ahead
  refine ⟨{ tick with machine.outstandingCursor := cursor }, ?_, rfl,
    { Scan.GoesOn.refl tick.scan with outstandingCursor := forward },
    { ready.later (Nat.le_succ_of_le ahead) with outstanding := awaits }⟩
  simp only [takeOutstanding, taken, bind, Except.bind, pure, Except.pure]
  rw [SparseStates.read_taken ascending delivered]

/-- What is looked up of a sequence is what the actor remembers of it. -/
theorem takeContinuation_find? (ready : tick.scan.Ready setting.shape position) {atom : Nat}
    (ahead : position ≤ atom) :
    ∃ read, tick.takeContinuation atom = .ok (tick.actor.continuations.find? atom, read) ∧
      Seeks setting.shape (atom + 1) tick read := by
  have remembered : Ascending tick.actor.continuations.entries.toList := ready.remembered
  have awaited : Awaits tick.actor.continuations.entries position
      tick.machine.continuationCursor := ready.continuation
  obtain ⟨found, cursor, taken, forward, awaits, delivered⟩ := awaited.take remembered ahead
  refine ⟨{ tick with machine.continuationCursor := cursor }, ?_,
    { Scan.GoesOn.refl tick.scan with continuationCursor := forward },
    { ready.later (Nat.le_succ_of_le ahead) with continuation := awaits }⟩
  simp only [takeContinuation, taken, bind, Except.bind, pure, Except.pure]
  rw [SparseStates.read_taken remembered delivered]

/-- The slot that is looked up is the one that belongs to the action. -/
theorem takeSlot_slot (ready : tick.scan.Ready setting.shape (position + 1))
    (awaits : Awaits setting.shape.slotAtoms position tick.machine.slotCursor) {slot : Nat}
    (stands : setting.shape.atom? position = some (.persistent slot)) :
    ∃ read, tick.takeSlot setting position = .ok (some slot, read) ∧
      Seeks setting.shape (position + 1) tick read := by
  obtain ⟨found, cursor, taken, forward, passed, delivered⟩ :=
    awaits.take setting.shape.ascending_slotAtoms (Nat.le_refl position)
  obtain rfl := setting.shape.eq_slot_of_taken stands delivered
  refine ⟨{ tick with machine.slotCursor := cursor }, ?_,
    { Scan.GoesOn.refl tick.scan with slotCursor := forward }, { ready with slot := passed }⟩
  simp only [takeSlot, taken, bind, Except.bind, pure, Except.pure]

end Tick

end BehaviorTree
