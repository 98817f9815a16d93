import BehaviorTree.Proofs.Tick.Chronicle
import BehaviorTree.Proofs.Tick.Reuse
import Mathlib.Data.List.Permutation

/-!
The invariant of the steps is a ledger of what has been passed and canceled, together with the
deciders around the cursor.
-/

namespace BehaviorTree
open Checked Machine Ordered
variable {β : Type} {setting : Setting β} {carried : Array (Entry Status)} {told : List Milestone}
  {bound position : Nat} {tick after : Tick β}

/-- What has been told agrees with where the machine stands: what lies before the bound has been
dealt with, so no more of it is canceled on behalf of the actor, and what has been invoked lies
before the position. -/
structure Ledger (carried : Array (Entry Status)) (told : List Milestone) (bound position : Nat)
    (tick : Tick β) : Prop where
  orderly : Orderly told
  closed : Closed told
  entries : tick.actor.outstanding.entries = carried
  splits : Splits carried bound tick.machine.outstandingCursor
  ascending : Ascending tick.machine.outstanding.contents.toList
  dealt : ∀ entry ∈ tick.machine.outstanding.contents.toList, entry.atom < bound
  passed : ∀ atom settled, .invoked atom settled ∈ told → atom < position
  canceled : ∀ atom carries, .canceled atom carries ∈ told → atom < bound ∧
    ∀ entry ∈ tick.machine.outstanding.contents.toList, entry.atom ≠ atom

namespace Ledger

theorem opening (carried : Array (Entry Status)) (same : tick.actor.outstanding.entries = carried)
    (cursor : tick.machine.outstandingCursor = 0)
    (none : tick.machine.outstanding.contents = #[]) : Ledger carried [] 0 0 tick where
  orderly := .nil
  closed := .of_no_cancel rfl
  entries := same
  splits := cursor ▸ .zero carried
  ascending := by
    rw [none]
    exact .nil
  dealt entry member := by
    rw [none] at member
    cases member
  passed _ _ member := by cases member
  canceled _ _ member := by cases member

/-- A ledger reads only what the actor carries, what is outstanding and what has been passed. -/
theorem congr (ledger : Ledger carried told bound position tick)
    (entries : after.actor.outstanding.entries = tick.actor.outstanding.entries)
    (outstanding : after.machine.outstanding = tick.machine.outstanding)
    (cursor : after.machine.outstandingCursor = tick.machine.outstandingCursor) :
    Ledger carried told bound position after where
  orderly := ledger.orderly
  closed := ledger.closed
  entries := entries.trans ledger.entries
  splits := cursor ▸ ledger.splits
  ascending := outstanding ▸ ledger.ascending
  dealt := outstanding ▸ ledger.dealt
  passed := ledger.passed
  canceled := outstanding ▸ ledger.canceled

theorem stays (ledger : Ledger carried told bound position tick) (stays : tick.Stays after) :
    Ledger carried told bound position after :=
  ledger.congr stays.entries stays.outstanding stays.outstandingCursor

theorem later (ledger : Ledger carried told bound position tick) {other : Nat}
    (forward : position ≤ other) : Ledger carried told bound other tick :=
  { ledger with passed := fun atom settled member =>
      Nat.lt_of_lt_of_le (ledger.passed atom settled member) forward }

/-- An atom ahead is invoked while nothing is pending. -/
theorem invoke (ledger : Ledger carried told bound position tick) {index : Nat}
    (ahead : position ≤ index) (dealt : bound ≤ index) :
    Ledger carried (told ++ [.invoked index true]) bound (index + 1) tick := by
  have single : Orderly [.invoked index true] :=
    .of_falling (List.pairwise_singleton _ _) (by simp) .nil
  have across : ∀ earlier ∈ told, earlier.MayPrecede (.invoked index true) := by
    intro earlier member
    cases earlier with
    | invoked atom settled => exact Nat.lt_of_lt_of_le (ledger.passed atom settled member) ahead
    | canceled atom carries =>
      have before := (ledger.canceled atom carries member).1
      show atom ≠ index
      omega
    | drained => trivial
  refine { ledger with
    orderly := ledger.orderly.append ledger.closed single (by simpa using across)
    closed := ledger.closed.append (.of_no_cancel rfl), passed := ?_, canceled := ?_ }
  · intro atom settled member
    rcases List.mem_append.mp member with earlier | now
    · have := ledger.passed atom settled earlier
      omega
    · obtain ⟨rfl, -⟩ := Milestone.invoked.inj (List.mem_singleton.mp now)
      exact Nat.lt_succ_self _
  · intro atom carries member
    rcases List.mem_append.mp member with earlier | now
    · exact ledger.canceled atom carries earlier
    · cases List.mem_singleton.mp now

/-- What is remembered of a visited action is passed, and the action may stay outstanding. -/
theorem attend (ledger : Ledger carried told bound position tick)
    (ready : Ascending carried.toList) {index : Nat} (ahead : bound ≤ index)
    (attends : tick.Attends Tick.Calm index after) :
    Ledger carried told (index + 1) position after ∧ after.chronicle = tick.chronicle ∧
      SameControl tick.machine after.machine ∧ after.machine.pending = tick.machine.pending := by
  obtain ⟨read, taken, middle, calm, stays⟩ := attends
  obtain ⟨place, cursor, takes, passed⟩ := tick.takeOutstanding_eq index read taken
  obtain ⟨_, _, takes_again, splits, -⟩ := take_splits ready ledger.splits ahead
  rw [ledger.entries, takes_again] at takes
  obtain ⟨-, rfl⟩ := Prod.mk.inj (Except.ok.inj takes)
  have before : Ledger carried told (index + 1) position read.2 := by
    rw [passed]
    refine { ledger with splits := splits, dealt := ?_, canceled := ?_ }
    · intro entry member
      have := ledger.dealt entry member
      omega
    · intro atom carries member
      obtain ⟨below, gone⟩ := ledger.canceled atom carries member
      exact ⟨by omega, gone⟩
  have visited := before.stays calm.stays
  have control : SameControl tick.machine middle.machine := by
    have same := calm.stays.control
    rw [passed] at same
    exact same
  have pending : middle.machine.pending = tick.machine.pending := by
    rw [calm.stays.pending, passed]
  have shown : middle.chronicle = tick.chronicle := by
    rw [calm.chronicle_eq, passed]
    rfl
  obtain rfl | ⟨status, pushed⟩ := stays
  · exact ⟨visited, shown, control, pending⟩
  · obtain ⟨outstanding, rfl, contents, -⟩ := middle.pushOutstanding_eq index status after pushed
    refine ⟨?_, shown, control, pending⟩
    have still : middle.machine.outstanding = tick.machine.outstanding := by
      rw [calm.stays.outstanding, passed]
    have held : outstanding.contents.toList =
        tick.machine.outstanding.contents.toList ++ [⟨index, status⟩] := by
      rw [contents, Array.toList_push, still]
    refine { visited with ascending := ?_, dealt := ?_, canceled := ?_ }
    · show Ascending outstanding.contents.toList
      rw [held]
      refine List.pairwise_append.mpr ⟨ledger.ascending, List.pairwise_singleton _ _, ?_⟩
      intro entry member other last
      obtain rfl := List.mem_singleton.mp last
      exact Nat.lt_of_lt_of_le (ledger.dealt entry member) ahead
    · intro entry member
      have member : entry ∈ outstanding.contents.toList := member
      rw [held, List.mem_append] at member
      rcases member with earlier | now
      · have := ledger.dealt entry earlier
        omega
      · obtain rfl := List.mem_singleton.mp now
        exact Nat.lt_succ_self _
    · intro atom carries member
      obtain ⟨below, gone⟩ := ledger.canceled atom carries member
      refine ⟨by omega, fun entry present => ?_⟩
      have present : entry ∈ outstanding.contents.toList := present
      rw [held, List.mem_append] at present
      rcases present with earlier | now
      · exact gone entry earlier
      · obtain rfl := List.mem_singleton.mp now
        exact Nat.ne_of_gt (Nat.lt_of_lt_of_le below ahead)

/-- What a drain cancels may follow what has been told. -/
theorem mayPrecede_cancel (ledger : Ledger carried told bound bound tick) {limit atom : Nat}
    {canceled : List Nat} (drained : tick.Drained carried bound limit canceled after)
    (member : atom ∈ canceled) : ∀ earlier ∈ told,
      earlier.MayPrecede (.ofCancel tick.machine.outstanding.contents atom) := by
  have source := drained.found atom member
  intro earlier before
  cases earlier with
  | invoked other settled =>
    intro carries
    have passed := ledger.passed other settled before
    rcases source with ⟨behind, -⟩ | ⟨⟨entry, present, same⟩, -⟩
    · omega
    · rw [← Array.all_toList, List.all_eq_true] at carries
      exact absurd same (of_decide_eq_true (carries entry present))
  | canceled other carries =>
    obtain ⟨below, gone⟩ := ledger.canceled other carries before
    show other ≠ atom
    rcases source with ⟨behind, -⟩ | ⟨⟨entry, present, rfl⟩, -⟩
    · omega
    · exact (gone entry present).symm
  | drained => trivial

/-- A drain adds its cancels and its end. -/
theorem drained (ledger : Ledger carried told bound bound tick) {limit : Nat} {canceled : List Nat}
    (forward : bound ≤ limit) (drained : tick.Drained carried bound limit canceled after) :
    Ledger carried (told ++
        (canceled.map (.ofCancel tick.machine.outstanding.contents) ++ [.drained]))
      limit limit after := by
  have cancels : (canceled.map (Milestone.ofCancel tick.machine.outstanding.contents)).filterMap
      Milestone.canceled? = canceled := by
    rw [List.filterMap_map]
    exact List.filterMap_some
  have added : Orderly (canceled.map (Milestone.ofCancel tick.machine.outstanding.contents) ++
      [.drained]) := by
    apply Orderly.of_falling
    · refine List.pairwise_append.mpr ⟨?_, List.pairwise_singleton _ _, ?_⟩
      · rw [List.pairwise_map]
        exact drained.falls.imp fun less => Nat.ne_of_gt less
      · intro earlier member later last
        obtain ⟨atom, -, rfl⟩ := List.mem_map.mp member
        obtain rfl := List.mem_singleton.mp last
        trivial
    · intro atom settled member
      simp [Milestone.ofCancel] at member
    · rw [List.filterMap_append, cancels]
      show (canceled ++ []).Pairwise (· > ·)
      rw [List.append_nil]
      exact drained.falls
  constructor
  case orderly =>
    refine ledger.orderly.append ledger.closed added fun earlier before later now => ?_
    rcases List.mem_append.mp now with cancel | last
    · obtain ⟨atom, member, rfl⟩ := List.mem_map.mp cancel
      exact ledger.mayPrecede_cancel drained member earlier before
    · obtain rfl := List.mem_singleton.mp last
      cases earlier <;> trivial
  case closed => exact ledger.closed.append (.drained _)
  case entries => exact drained.entries
  case splits => exact drained.splits
  case ascending => exact ledger.ascending.sublist drained.kept
  case dealt =>
    intro entry member
    exact Nat.lt_of_lt_of_le (ledger.dealt entry (drained.kept.subset member)) forward
  case passed =>
    intro atom settled member
    rcases List.mem_append.mp member with earlier | now
    · exact Nat.lt_of_lt_of_le (ledger.passed atom settled earlier) forward
    · simp [Milestone.ofCancel] at now
  case canceled =>
    intro atom carries member
    rcases List.mem_append.mp member with earlier | now
    · obtain ⟨below, gone⟩ := ledger.canceled atom carries earlier
      exact ⟨Nat.lt_of_lt_of_le below forward,
        fun entry present => gone entry (drained.kept.subset present)⟩
    · have source : atom ∈ canceled := by
        rw [List.mem_append, List.mem_map] at now
        rcases now with ⟨other, present, same⟩ | last
        · obtain ⟨rfl, -⟩ := Milestone.canceled.inj same
          exact present
        · cases List.mem_singleton.mp last
      rcases drained.found atom source with ⟨behind, before⟩ | ⟨⟨entry, present, rfl⟩, gone⟩
      · refine ⟨before, fun entry present => ?_⟩
        have := ledger.dealt entry (drained.kept.subset present)
        omega
      · exact ⟨Nat.lt_of_lt_of_le (ledger.dealt entry present) forward, gone⟩

/-- After a drain nothing is pending, and the ledger holds up to the end of what was pending. -/
theorem drain (watched : setting.monitored = true) (ready : Ascending carried.toList)
    (ledger : Ledger carried told bound bound tick) {reached : Nat} (dealt : bound ≤ reached)
    (ends : tick.machine.pending.isEmpty = false → tick.machine.pending.stop ≤ reached) :
    (tick.drain setting).Ensures fun after => ∃ more limit, limit ≤ reached ∧
      after.chronicle = tick.chronicle ++ more ∧ Ledger carried (told ++ more) limit limit after ∧
      after.machine.pending.isEmpty = true ∧ SameControl tick.machine after.machine := by
  by_cases idle : tick.machine.pending.isEmpty = true
  · rw [Tick.drain, if_pos idle]
    refine ensures_pure.mpr ⟨[], bound, dealt, (List.append_nil _).symm, ?_, idle, .refl _⟩
    rw [List.append_nil]
    exact ledger
  · rw [Bool.not_eq_true] at idle
    refine (Tick.drained_of_drain watched ready ledger.entries ledger.splits ledger.ascending
      ledger.dealt idle).mono fun after drains => ?_
    obtain ⟨canceled, drained⟩ := drains
    exact ⟨_, _, Nat.max_le.mpr ⟨dealt, ends idle⟩, drained.chronicle,
      ledger.drained (Nat.le_max_left _ _) drained, drained.settled, drained.control⟩

end Ledger

/-- The span of the decider that has opened a frame. -/
def Frame.span (frame : Frame) : Span := ⟨frame.atom, frame.stop⟩

/-- Deciders are open around a stretch of the shape, each within the ones before it. -/
structure Encloses (shape : Shape β) (low high : Nat) (spans : List Span) : Prop where
  stands : ∀ span ∈ spans, ∃ rule, shape.atom? span.start = some (.decider rule span.stop)
  around : ∀ span ∈ spans, span.start < low ∧ high ≤ span.stop
  nested : spans.Pairwise fun outer inner => inner.stop ≤ outer.stop

namespace Encloses
variable {shape : Shape β} {low high : Nat} {spans : List Span} {span : Span}

theorem nil : Encloses shape low high [] :=
  ⟨fun _ member => (nomatch member), fun _ member => (nomatch member), .nil⟩

/-- Behind an action under the cursor, the deciders around it are still open. -/
theorem pass (encloses : Encloses shape low (low + 1) spans) :
    Encloses shape (low + 1) (low + 1) spans :=
  { encloses with around := fun span member =>
      (encloses.around span member).imp_left Nat.lt_succ_of_lt }

/-- A decider under the cursor opens within those around it. -/
theorem opened (encloses : Encloses shape low (low + 1) spans) {rule : Rule} {later stop : Nat}
    (stands : shape.atom? low = some (.decider rule stop)) (behind : low < later)
    (inside : later < stop) : Encloses shape later (later + 1) (spans ++ [⟨low, stop⟩]) := by
  have within : ∀ outer ∈ spans, stop ≤ outer.stop := by
    intro outer member
    obtain ⟨around, outside⟩ := encloses.stands outer member
    obtain ⟨before, reaches⟩ := encloses.around outer member
    exact shape.stop_le_around outside stands before reaches
  constructor
  case stands =>
    intro other member
    rcases List.mem_append.mp member with outer | now
    · exact encloses.stands other outer
    · obtain rfl := List.mem_singleton.mp now
      exact ⟨rule, stands⟩
  case around =>
    intro other member
    rcases List.mem_append.mp member with outer | now
    · have before := (encloses.around other outer).1
      have last := within other outer
      omega
    · obtain rfl := List.mem_singleton.mp now
      exact ⟨behind, inside⟩
  case nested =>
    refine List.pairwise_append.mpr ⟨encloses.nested, List.pairwise_singleton _ _, ?_⟩
    intro outer member inner last
    obtain rfl := List.mem_singleton.mp last
    exact within outer member

/-- Where the innermost decider is left, the others are still open. -/
theorem leave (encloses : Encloses shape low low (spans ++ [span])) :
    Encloses shape span.stop span.stop spans := by
  have reaches := (encloses.around span (by simp)).2
  obtain ⟨nested, -, across⟩ := List.pairwise_append.mp encloses.nested
  refine ⟨fun outer member => encloses.stands outer (List.mem_append_left _ member),
    fun outer member => ⟨?_, across outer member span (List.mem_singleton_self span)⟩, nested⟩
  exact Nat.lt_of_lt_of_le (encloses.around outer (List.mem_append_left _ member)).1 reaches

/-- Before the innermost decider ends, the others have not ended either. -/
theorem goOn (encloses : Encloses shape low low (spans ++ [span])) (more : low < span.stop) :
    Encloses shape low (low + 1) (spans ++ [span]) := by
  refine { encloses with around := fun outer member => ⟨(encloses.around outer member).1, ?_⟩ }
  rcases List.mem_append.mp member with around | now
  · have across := (List.pairwise_append.mp encloses.nested).2.2
    have := across outer around span (List.mem_singleton_self span)
    omega
  · obtain rfl := List.mem_singleton.mp now
    exact more

end Encloses

/-- A span that covers two others ends with one of them. -/
theorem Span.stop_cover_le {span other : Span} {index : Nat}
    (first : span.isEmpty = false → span.stop ≤ index) (second : other.stop ≤ index) :
    (span.cover other).isEmpty = false → (span.cover other).stop ≤ index := by
  unfold cover
  split
  · exact first
  · split
    · exact fun _ => second
    · next nonempty =>
      exact fun _ => Nat.max_le.mpr ⟨first (Bool.eq_false_iff.mpr nonempty), second⟩

/-- What it takes for a decider to take note of a status: it stays at the cursor, or moves on to its
end and may give up what lies before that. -/
structure Machine.Absorbs (frame : Frame) (machine : Machine) (absorbed : Frame × Machine) :
    Prop where
  span : absorbed.1.span = frame.span
  frames : absorbed.2.frames = machine.frames
  outstanding : absorbed.2.outstanding = machine.outstanding
  outstandingCursor : absorbed.2.outstandingCursor = machine.outstandingCursor
  moves : absorbed.2.cursor = machine.cursor ∧ absorbed.2.pending = machine.pending ∨
    absorbed.2.cursor = frame.stop ∧ (absorbed.2.pending = machine.pending ∨
      ∃ start, absorbed.2.pending = machine.pending.cover ⟨start, frame.stop⟩)

theorem Machine.absorbs (machine : Machine) (frame : Frame) :
    (machine.absorb frame).Ensures (machine.Absorbs frame) := by
  refine (machine.absorb_notes frame).mono fun absorbed notes => ?_
  cases notes with
  | goesOn => exact ⟨rfl, rfl, rfl, rfl, .inl ⟨rfl, rfl⟩⟩
  | records | fails => exact ⟨rfl, rfl, rfl, rfl, .inr ⟨rfl, .inl rfl⟩⟩
  | chooses | takesBack => exact ⟨rfl, rfl, rfl, rfl, .inr ⟨rfl, .inr ⟨_, rfl⟩⟩⟩

/-- A decider that has come to its end lets the traversal go on from there. -/
theorem Machine.Absorbs.cursor_of_ended {frame : Frame} {machine : Machine}
    {absorbed : Frame × Machine} (absorbs : machine.Absorbs frame absorbed)
    (inside : machine.cursor ≤ frame.stop) (ended : absorbed.1.stop ≤ absorbed.2.cursor) :
    absorbed.2.cursor = frame.stop := by
  have same_stop : absorbed.1.stop = frame.stop := congrArg Span.stop absorbs.span
  rcases absorbs.moves with ⟨stays, -⟩ | ⟨stop, -⟩
  · omega
  · exact stop

/-- A decider that goes on leaves the cursor where it is. -/
theorem Machine.Absorbs.cursor_of_goesOn {frame : Frame} {machine : Machine}
    {absorbed : Frame × Machine} (absorbs : machine.Absorbs frame absorbed)
    (more : ¬absorbed.1.stop ≤ absorbed.2.cursor) :
    absorbed.2.cursor = machine.cursor ∧ machine.cursor < frame.stop := by
  have same_stop : absorbed.1.stop = frame.stop := congrArg Span.stop absorbs.span
  rcases absorbs.moves with ⟨stays, -⟩ | ⟨stop, -⟩ <;> omega

/-- What is pending ends before the cursor, also after a decider has taken note of a status. -/
theorem Machine.Absorbs.ends {frame : Frame} {machine : Machine} {absorbed : Frame × Machine}
    (absorbs : machine.Absorbs frame absorbed) (inside : machine.cursor ≤ frame.stop)
    (ends : machine.pending.isEmpty = false → machine.pending.stop ≤ machine.cursor) :
    machine.cursor ≤ absorbed.2.cursor ∧
      (absorbed.2.pending.isEmpty = false → absorbed.2.pending.stop ≤ absorbed.2.cursor) := by
  have reached (busy : machine.pending.isEmpty = false) : machine.pending.stop ≤ frame.stop :=
    Nat.le_trans (ends busy) inside
  rcases absorbs.moves with ⟨cursor, pending⟩ | ⟨cursor, pending | ⟨start, pending⟩⟩
  · rw [cursor, pending]
    exact ⟨Nat.le_refl _, ends⟩
  · rw [cursor, pending]
    exact ⟨inside, reached⟩
  · rw [cursor, pending]
    exact ⟨inside, Span.stop_cover_le reached (Nat.le_refl _)⟩

namespace Tick

theorem chronicle_reorder (tick : Tick β) :
    tick.reorder.Ensures fun after => after.chronicle = tick.chronicle := by
  refine tick.reorder_reorders.mono fun after reorders => ?_
  cases reorders with
  | silently => rfl
  | reporting => exact (chronicle_emit _ _).trans (List.append_nil _)

/-- The spans of the open deciders, outermost first. -/
def openSpans (tick : Tick β) : List Span :=
  tick.machine.frames.contents.toList.map Frame.span

end Tick

/-- What holds between the steps of a watched traversal, given what has been told. -/
inductive Abides (setting : Setting β) (carried : Array (Entry Status)) (told : List Milestone)
    (tick : Tick β) : Prop where
  /-- A node is about to be visited, and nothing is pending. -/
  | visiting {bound : Nat} (command : tick.machine.command = .invoke)
      (dealt : bound ≤ tick.machine.cursor)
      (ledger : Ledger carried told bound tick.machine.cursor tick)
      (settled : tick.machine.pending.isEmpty = true)
      (encloses : Encloses setting.shape tick.machine.cursor (tick.machine.cursor + 1)
        tick.openSpans)
  /-- A status travels up, and all that has been invoked has been dealt with. -/
  | rising {bound : Nat} (command : tick.machine.command = .resume)
      (dealt : bound ≤ tick.machine.cursor) (ledger : Ledger carried told bound bound tick)
      (ends : tick.machine.pending.isEmpty = false →
        tick.machine.pending.stop ≤ tick.machine.cursor)
      (encloses : Encloses setting.shape tick.machine.cursor tick.machine.cursor tick.openSpans)
  | cleaning {bound : Nat} (command : tick.machine.command = .cleanup)
      (ledger : Ledger carried told bound bound tick)
  | ended (terminal : tick.machine.command.isTerminal = true) (orderly : Orderly told)

/-- The chronicle goes on, and the invariant holds of all that has been told. -/
def Continues (setting : Setting β) (carried : Array (Entry Status)) (told : List Milestone)
    (before after : Tick β) : Prop :=
  ∃ more, after.chronicle = before.chronicle ++ more ∧ Abides setting carried (told ++ more) after

theorem Continues.silent (shown : after.chronicle = tick.chronicle)
    (abides : Abides setting carried told after) : Continues setting carried told tick after :=
  ⟨[], by rw [shown, List.append_nil], by rwa [List.append_nil]⟩

theorem Continues.silently {middle : Tick β} (shown : middle.chronicle = tick.chronicle)
    (goes : Continues setting carried told middle after) :
    Continues setting carried told tick after := by
  rwa [Continues, ← shown]

theorem Continues.tell {middle : Tick β} {more : List Milestone}
    (shown : middle.chronicle = tick.chronicle ++ more)
    (goes : Continues setting carried (told ++ more) middle after) :
    Continues setting carried told tick after := by
  obtain ⟨others, chronicle, abides⟩ := goes
  rw [shown, List.append_assoc] at chronicle
  rw [List.append_assoc] at abides
  exact ⟨more ++ others, chronicle, abides⟩

namespace Abides

theorem orderly (abides : Abides setting carried told tick) : Orderly told := by
  cases abides with
  | visiting _ _ ledger | rising _ _ ledger | cleaning _ ledger => exact ledger.orderly
  | ended _ orderly => exact orderly

theorem stays (abides : Abides setting carried told tick) (stays : tick.Stays after) :
    Abides setting carried told after := by
  obtain ⟨same_command, -, same_cursor, same_frames⟩ := stays.control
  have spans : after.openSpans = tick.openSpans := by rw [Tick.openSpans, same_frames]; rfl
  cases abides with
  | visiting command dealt ledger settled encloses =>
    have moved := ledger.stays stays
    rw [← same_cursor] at moved dealt
    refine .visiting (same_command.trans command) dealt moved ?_ ?_
    · rwa [stays.pending]
    · rwa [same_cursor, spans]
  | rising command dealt ledger ends encloses =>
    rw [← same_cursor] at dealt
    refine .rising (same_command.trans command) dealt (ledger.stays stays) ?_ ?_
    · rwa [same_cursor, stays.pending]
    · rwa [same_cursor, spans]
  | cleaning command ledger =>
    exact .cleaning (same_command.trans command) (ledger.stays stays)
  | ended terminal orderly => exact .ended (same_command ▸ terminal) orderly

/-- A notice that is no milestone makes no difference to what goes on. -/
theorem notify (watched : setting.monitored = true) {command : Command}
    (abides : Abides setting carried told (tick.proceed command)) {atom : Nat} {flags : Flags}
    (silent : (Event.noticed atom flags tick.toMoment).milestone? = none) :
    Continues setting carried told tick ((tick.notify setting atom flags).proceed command) := by
  have shown := Tick.chronicle_notify watched tick atom flags
  rw [silent] at shown
  refine .silent (shown.trans (List.append_nil _)) (abides.stays ?_)
  unfold Tick.notify
  split <;> exact ⟨rfl, .refl _, rfl, rfl, rfl⟩

/-- A decider under the cursor is entered. -/
theorem enter (watched : setting.monitored = true) {frame : Frame} {rule : Rule}
    (stands : setting.shape.atom? frame.atom = some (.decider rule frame.stop))
    (ledger : Ledger carried told bound (frame.atom + 1) tick) (dealt : bound ≤ frame.atom)
    (settled : tick.machine.pending.isEmpty = true)
    (encloses : Encloses setting.shape frame.atom (frame.atom + 1) tick.openSpans) :
    (tick.enterDecider setting frame).Ensures (Continues setting carried told tick) := by
  unfold Tick.enterDecider
  split
  · refine ensures_pure.mpr (.silent ?_ (.ended rfl ledger.orderly))
    exact (tick.chronicle_emit _).trans (List.append_nil _)
  · refine (ensures_true _).bind fun _ _ => (ensures_true _).bind fun _ _ => ?_
    refine (Tick.calm_resumption _ frame).bind fun ⟨start, opened, read⟩
      ⟨calm, behind, before, atom, stop⟩ => ?_
    refine (Buffer.ensures_push _ _).bind fun frames ⟨contents, _⟩ => ensures_pure.mpr ?_
    have stays := calm.stays
    have inside := before (setting.shape.has_child stands).1
    let moved : Tick β := { read with machine.frames := frames, machine.cursor := start }
    have shown : moved.chronicle = tick.chronicle := calm.chronicle_eq
    have spans : moved.openSpans = tick.openSpans ++ [⟨frame.atom, frame.stop⟩] := by
      show frames.contents.toList.map Frame.span = _
      rw [contents, Array.toList_push, List.map_append, List.map_singleton, Frame.span, atom, stop,
        stays.control.2.2.2]
      rfl
    have arrives : Abides setting carried told (moved.proceed .invoke) := by
      refine .visiting rfl (Nat.le_trans dealt (Nat.le_of_lt behind)) ?_ ?_ ?_
      · exact (ledger.later behind).congr stays.entries stays.outstanding stays.outstandingCursor
      · show read.machine.pending.isEmpty = true
        rw [stays.pending]
        exact settled
      · show Encloses setting.shape start (start + 1) moved.openSpans
        rw [spans]
        exact encloses.opened stands behind inside
    exact (arrives.notify watched rfl).silently shown

/-- What an action delivers ends its visit and shows no milestone. -/
theorem deliver (watched : setting.monitored = true) {index : Nat}
    (ledger : Ledger carried told (index + 1) (index + 1) tick)
    (settled : tick.machine.pending.isEmpty = true)
    (encloses : Encloses setting.shape index (index + 1) tick.openSpans) (result : Status) :
    Continues setting carried told tick (tick.deliver setting index result) := by
  let delivered : Tick β :=
    { tick.log (.actionVisited index result) with
      machine.status := result
      machine.cursor := index + 1 }
  have shown : delivered.chronicle = tick.chronicle :=
    (tick.chronicle_emit _).trans (List.append_nil _)
  have rises : Abides setting carried told (delivered.proceed .resume) := by
    refine .rising rfl (Nat.le_refl _) (ledger.congr rfl rfl rfl) ?_ encloses.pass
    intro busy
    have idle : tick.machine.pending.isEmpty = false := busy
    rw [settled] at idle
    cases idle
  exact (rises.notify watched rfl).silently shown

/-- The atom under the cursor is visited. -/
theorem invoke (watched : setting.monitored = true) (ready : Ascending carried.toList)
    (dealt : bound ≤ tick.machine.cursor)
    (ledger : Ledger carried told bound tick.machine.cursor tick)
    (settled : tick.machine.pending.isEmpty = true)
    (encloses : Encloses setting.shape tick.machine.cursor (tick.machine.cursor + 1)
      tick.openSpans) :
    (tick.invoke setting).Ensures (Continues setting carried told tick) := by
  unfold Tick.invoke
  simp only
  split
  · refine ensures_ok.mpr (.silent ?_ (.ended rfl ledger.orderly))
    exact (tick.chronicle_emit _).trans (List.append_nil _)
  · next node stands =>
    have noticed := tick.stays_notify setting tick.machine.cursor (.enter ||| .fromTop)
    have shown : (tick.notify setting tick.machine.cursor (.enter ||| .fromTop)).chronicle =
        tick.chronicle ++ [.invoked tick.machine.cursor true] := by
      rw [Tick.chronicle_notify watched, ← settled]
      rfl
    have invoked := (ledger.invoke (Nat.le_refl _) dealt).stays noticed
    have spans : (tick.notify setting tick.machine.cursor (.enter ||| .fromTop)).openSpans =
        tick.openSpans := by
      rw [Tick.openSpans, noticed.control.2.2.2]
      rfl
    rw [← noticed.pending] at settled
    rw [← spans] at encloses
    generalize tick.notify setting tick.machine.cursor (.enter ||| .fromTop) = entered at *
    suffices visits : (entered.visitAtom setting tick.machine.cursor node).Ensures
        (Continues setting carried (told ++ [.invoked tick.machine.cursor true]) entered) from
      visits.mono fun after goes => goes.tell shown
    cases acts : node.isDecider with
    | true =>
      cases node with
      | decider rule stop =>
        have frame_stands : setting.shape.atom?
            (entered.frameFor tick.machine.cursor rule stop).atom = some (.decider rule stop) :=
          stands
        exact enter watched frame_stands invoked dealt settled encloses
      | _ => cases acts
    | false =>
      refine (entered.attends_visitAtom setting tick.machine.cursor acts).mono ?_
      rintro after ⟨visited, result, attends, rfl⟩
      obtain ⟨passed, same, control, pending⟩ := invoked.attend ready dealt attends
      have open_spans : visited.openSpans = entered.openSpans := by
        rw [Tick.openSpans, control.2.2.2]
        rfl
      rw [← pending] at settled
      rw [← open_spans] at encloses
      exact (deliver watched passed settled encloses result).silently same

/-- The innermost decider is left. -/
theorem leave (watched : setting.monitored = true) {frame : Frame} {outer : List Span}
    (spans : tick.openSpans = outer ++ [frame.span]) (dealt : bound ≤ tick.machine.cursor)
    (ledger : Ledger carried told bound bound tick)
    (ends : tick.machine.pending.isEmpty = false →
      tick.machine.pending.stop ≤ tick.machine.cursor)
    (encloses : Encloses setting.shape tick.machine.cursor tick.machine.cursor outer)
    (child : Status) :
    (tick.leaveDecider setting frame child).Ensures (Continues setting carried told tick) := by
  refine (Buffer.ensures_pop _).bind fun ⟨last, frames⟩ ⟨contents, _⟩ => ensures_pure.mpr ?_
  let left : Tick β :=
    { tick with machine.status := frame.result child, machine.frames := frames }
  have shown : (left.log (.deciderLeft frame.atom (frame.result child))).chronicle =
      tick.chronicle := (left.chronicle_emit _).trans (List.append_nil _)
  have still_open : left.openSpans = outer := by
    rw [Tick.openSpans, contents, Array.toList_push, List.map_append, List.map_singleton] at spans
    exact (List.append_inj' spans rfl).1
  refine Continues.silently shown (Abides.notify watched ?_ rfl)
  split
  · exact .cleaning rfl (ledger.congr rfl rfl rfl)
  · refine .rising rfl dealt (ledger.congr rfl rfl rfl) ends ?_
    show Encloses setting.shape _ _ left.openSpans
    rwa [still_open]

/-- The innermost decider goes on with its next child, once nothing is pending. -/
theorem next (watched : setting.monitored = true) (ready : Ascending carried.toList)
    {frame last : Frame} {rest : List Frame}
    (held : tick.machine.frames.contents.toList = rest ++ [last]) (same : frame.span = last.span)
    (dealt : bound ≤ tick.machine.cursor) (ledger : Ledger carried told bound bound tick)
    (ends : tick.machine.pending.isEmpty = false →
      tick.machine.pending.stop ≤ tick.machine.cursor)
    (encloses : Encloses setting.shape tick.machine.cursor (tick.machine.cursor + 1)
      tick.openSpans) :
    (tick.nextChild setting frame).Ensures (Continues setting carried told tick) := by
  let moved : Tick β := { tick with machine.frames := tick.machine.frames.setTop frame }
  have spans : moved.openSpans = tick.openSpans := by
    have replaced := (Buffer.setTop_last held frame).1
    rw [Tick.openSpans, Tick.openSpans, held, replaced, List.map_append, List.map_append,
      List.map_singleton, List.map_singleton, same]
  have noticed := moved.stays_notify setting frame.atom (.leave ||| .fromTop)
  have shown : (moved.notify setting frame.atom (.leave ||| .fromTop)).chronicle =
      tick.chronicle :=
    (Tick.chronicle_notify watched moved _ _).trans (List.append_nil _)
  have moved_ledger : Ledger carried told bound bound moved := ledger.congr rfl rfl rfl
  have drains := (moved_ledger.stays noticed).drain watched ready dealt (by rwa [noticed.pending])
  refine Checked.Ensures.bind drains fun drained ⟨more, limit, within, told_more, kept, settled,
    control⟩ => ensures_pure.mpr ?_
  have cursor : drained.machine.cursor = tick.machine.cursor :=
    control.2.2.1.trans noticed.control.2.2.1
  have still_open : drained.openSpans = tick.openSpans := by
    rw [← spans, Tick.openSpans, control.2.2.2, noticed.control.2.2.2]
    rfl
  rw [← cursor] at within
  rw [← cursor, ← still_open] at encloses
  have arrived : Ledger carried (told ++ more) limit drained.machine.cursor
      (drained.proceed .invoke) := (kept.later within).congr rfl rfl rfl
  rw [shown] at told_more
  exact ⟨more, told_more, .visiting rfl within arrived settled encloses⟩

/-- A status goes up to the innermost decider. -/
theorem resume (watched : setting.monitored = true) (ready : Ascending carried.toList)
    (dealt : bound ≤ tick.machine.cursor) (ledger : Ledger carried told bound bound tick)
    (ends : tick.machine.pending.isEmpty = false →
      tick.machine.pending.stop ≤ tick.machine.cursor)
    (encloses : Encloses setting.shape tick.machine.cursor tick.machine.cursor tick.openSpans) :
    (tick.resume setting).Ensures (Continues setting carried told tick) := by
  unfold Tick.resume
  split
  · exact ensures_ok.mpr (.silent rfl (.cleaning rfl (ledger.congr rfl rfl rfl)))
  · next frame top =>
    obtain ⟨rest, held⟩ := Buffer.exists_rest top
    have noticed := tick.stays_notify setting frame.atom (.enter ||| .fromBottom)
    have shown : (tick.notify setting frame.atom (.enter ||| .fromBottom)).chronicle =
        tick.chronicle :=
      (Tick.chronicle_notify watched tick _ _).trans (List.append_nil _)
    have spans : tick.openSpans = rest.map Frame.span ++ [frame.span] := by
      rw [Tick.openSpans, held, List.map_append, List.map_singleton]
    rw [spans] at encloses
    have inside : tick.machine.cursor ≤ frame.stop := (encloses.around frame.span (by simp)).2
    generalize tick.notify setting frame.atom (.enter ||| .fromBottom) = entered at *
    have same_cursor := noticed.control.2.2.1
    rw [← same_cursor] at dealt ends encloses inside
    rw [← noticed.pending] at ends
    refine Checked.Ensures.bind (entered.machine.absorbs frame) fun ⟨absorbed, machine⟩
      absorbs => ?_
    obtain ⟨forward, ends_after⟩ := absorbs.ends inside ends
    let moved : Tick β := { entered with machine }
    have moved_ledger : Ledger carried told bound bound moved :=
      ledger.congr noticed.entries (absorbs.outstanding.trans noticed.outstanding)
        (absorbs.outstandingCursor.trans noticed.outstandingCursor)
    have moved_held : moved.machine.frames.contents.toList = rest ++ [frame] := by
      rw [← held, ← noticed.control.2.2.2, ← absorbs.frames]
    have moved_spans : moved.openSpans = rest.map Frame.span ++ [frame.span] := by
      rw [Tick.openSpans, moved_held, List.map_append, List.map_singleton]
    have moved_dealt : bound ≤ moved.machine.cursor := Nat.le_trans dealt forward
    suffices goes : (if absorbed.stop ≤ moved.machine.cursor then
        moved.leaveDecider setting absorbed tick.machine.status
        else moved.nextChild setting absorbed).Ensures (Continues setting carried told moved) from
      goes.mono fun after goes => goes.silently shown
    split
    · next ended =>
      have at_stop : moved.machine.cursor = frame.stop := absorbs.cursor_of_ended inside ended
      have outer : Encloses setting.shape moved.machine.cursor moved.machine.cursor
          (rest.map Frame.span) := by
        rw [at_stop]
        exact encloses.leave
      exact leave watched (by rw [moved_spans, absorbs.span]) moved_dealt moved_ledger ends_after
        outer _
    · next more =>
      obtain ⟨still, before⟩ : moved.machine.cursor = entered.machine.cursor ∧
          entered.machine.cursor < frame.stop := absorbs.cursor_of_goesOn more
      have around : Encloses setting.shape moved.machine.cursor (moved.machine.cursor + 1)
          moved.openSpans := by
        rw [still, moved_spans]
        exact encloses.goOn before
      exact next watched ready moved_held absorbs.span moved_dealt moved_ledger ends_after around

/-- The last drain is followed by no more milestones. -/
theorem cleanup (watched : setting.monitored = true) (ready : Ascending carried.toList)
    (ledger : Ledger carried told bound bound tick) :
    (tick.cleanup setting).Ensures (Continues setting carried told tick) := by
  have drains := ledger.drain watched ready (Nat.le_max_left bound tick.machine.pending.stop)
    fun _ => Nat.le_max_right _ _
  refine Checked.Ensures.bind drains fun drained ⟨more, limit, _, shown, kept, _⟩ => ?_
  refine drained.chronicle_reorder.bind fun ordered same => (ensures_true _).bind fun _ _ =>
    ensures_pure.mpr ⟨more, ?_, .ended rfl kept.orderly⟩
  rw [← shown, ← same]
  rfl

/-- Each step of a watched traversal goes on in good order. -/
theorem step (watched : setting.monitored = true) (ready : Ascending carried.toList)
    (abides : Abides setting carried told tick) (step : tick.step setting = .ok after) :
    Continues setting carried told tick after := by
  obtain ⟨started, logged⟩ : ∃ started, started = tick.log (.stepStarted tick.machine.command
      tick.machine.cursor tick.machine.status) := ⟨_, rfl⟩
  have shown : started.chronicle = tick.chronicle := by
    rw [logged]
    exact (tick.chronicle_emit _).trans (List.append_nil _)
  have begun : Abides setting carried told started := by
    rw [logged]
    exact abides.stays ⟨rfl, .refl _, rfl, rfl, rfl⟩
  have machine : tick.machine = started.machine := by
    rw [logged]
    rfl
  refine Continues.silently shown ?_
  simp only [Tick.step, ← logged] at step
  rw [machine] at step
  cases begun with
  | visiting command dealt ledger settled encloses =>
    rw [command] at step
    exact invoke watched ready dealt ledger settled encloses after step
  | rising command dealt ledger ends encloses =>
    rw [command] at step
    exact resume watched ready dealt ledger ends encloses after step
  | cleaning command ledger =>
    rw [command] at step
    exact cleanup watched ready ledger after step
  | ended terminal orderly =>
    cases command : started.machine.command with
    | done | error =>
      rw [command] at step
      obtain rfl := Except.ok.inj step
      exact .silent rfl (.ended terminal orderly)
    | invoke | resume | cleanup =>
      rw [command] at terminal
      cases terminal

/-- A watched traversal goes on in good order. -/
theorem steps (watched : setting.monitored = true) (ready : Ascending carried.toList) {count : Nat}
    (steps : Tick.Steps setting count tick after) (abides : Abides setting carried told tick) :
    Continues setting carried told tick after := by
  induction steps generalizing told with
  | refl => exact .silent rfl abides
  | cons _ first _ ih =>
    obtain ⟨more, shown, abides⟩ := abides.step watched ready first
    exact (ih abides).tell shown

end Abides

namespace Tick

theorem chronicle_finish (tick : Tick β) (setting : Setting β) :
    (tick.finish setting).Ensures fun outcome => outcome.tick.chronicle = tick.chronicle := by
  unfold finish
  simp only
  split
  · exact ensures_pure.mpr rfl
  · exact (ensures_true _).bind fun actor _ =>
      ensures_pure.mpr ((chronicle_emit _ _).trans (List.append_nil _))

/-- A watched update keeps to the order, and comes to the same as one that is not watched. -/
theorem update_orderly {β : Type} (tick : Tick β) (setting : Setting β)
    (fit : tick.Fit setting) :
    ∃ result after told, tick.update (setting.watch true) = .ok ⟨.ok result, after⟩ ∧
      after.chronicle = tick.chronicle ++ told ∧ Orderly told ∧
      ∃ unwatched, tick.update setting = .ok ⟨.ok result, unwatched⟩ ∧
        LeaveSame tick tick unwatched after := by
  have alike : Alike setting tick tick := ⟨fit.sized, fit.covers, fit.supports, fit.sized,
    fit.covers, fit.supports, fit.ascending, ⟨rfl, rfl, rfl, rfl, rfl⟩, rfl⟩
  have watched_fit : tick.Fit (setting.watch true) :=
    ⟨fit.sized, fit.covers, fit.supports, fit.ascending, fit.undecided⟩
  obtain ⟨after, completes, -⟩ := watched_fit.update_performs
  have updated := completes.complete_eq
  obtain ⟨machine, count, settled, prepares, -, steps, -, finishes⟩ := completes
  have ready := (tick.actor.isAscending_iff.mp fit.ascending).2
  have begun : Abides (setting.watch true) tick.actor.outstanding.entries []
      { tick with machine } := by
    obtain rfl := Machine.eq_of_prepareUpdate prepares
    have none : ({ tick with machine := { tick.machine.reset with command := .invoke } } :
        Tick β).openSpans = [] := by
      show tick.machine.frames.clear.contents.toList.map Frame.span = []
      rw [Buffer.contents_clear]
      rfl
    refine .visiting rfl (Nat.zero_le 0) (.opening _ rfl rfl (Buffer.contents_clear _)) rfl ?_
    rw [none]
    exact .nil
  obtain ⟨told, shown, abides⟩ := begun.steps rfl ready steps
  have ended := chronicle_finish settled (setting.watch true) _ finishes
  refine ⟨_, after, told, updated, ended.trans shown, abides.orderly, ?_⟩
  rcases alike.update true with ⟨result, plain, others, first, second, same⟩ | ⟨-, stopped, -⟩
  · obtain ⟨answered, rfl⟩ := Outcome.mk.inj (Except.ok.inj (updated.symm.trans second))
    obtain rfl := Except.ok.inj answered
    exact ⟨plain, first, same⟩
  · cases updated.symm.trans stopped

/-- Where the persistent action of the sample fails, the other two are canceled behind it. -/
theorem update_orderly_sample : Sample.failing.Fit Sample.setting ∧
    ∃ after, Sample.failing.update (Sample.setting.watch true) = .ok ⟨.ok .fail, after⟩ ∧
      after.chronicle = [.invoked 0 true, .invoked 1 true, .invoked 2 true, .invoked 3 true,
        .canceled 2 false, .canceled 1 false, .drained] ∧ Orderly after.chronicle := by
  obtain ⟨result, after, told, updated, chronicle, orderly, -⟩ :=
    update_orderly Sample.failing Sample.setting Sample.fit_failing
  have shown : (Sample.failing.update (Sample.setting.watch true)).map (fun outcome =>
      (outcome.answer, outcome.tick.chronicle)) = .ok (.ok .fail, [.invoked 0 true,
        .invoked 1 true, .invoked 2 true, .invoked 3 true, .canceled 2 false, .canceled 1 false,
        .drained]) := by cbv
  rw [updated] at shown
  obtain ⟨answer, milestones⟩ := Prod.mk.inj (Except.ok.inj shown)
  obtain rfl := Except.ok.inj answer
  have from_start : after.chronicle = told := chronicle
  exact ⟨Sample.fit_failing, after, updated, milestones, from_start ▸ orderly⟩

end Tick

end BehaviorTree
