import BehaviorTree.Proofs.Simulation.Drain

namespace BehaviorTree
open Checked Machine Ordered
variable {β : Type}

/-- A milestone of a tick. -/
inductive Milestone where
  /-- An atom is invoked, with nothing pending or with something. -/
  | invoked (atom : Nat) (settled : Bool)
  /-- An atom is canceled, which the actor has carried over or which this tick left outstanding. -/
  | canceled (atom : Nat) (carried : Bool)
  | drained
  deriving DecidableEq, Repr

namespace Milestone

def canceled? : Milestone → Option Nat
  | canceled atom _ => some atom
  | invoked _ _ | drained => none

/-- The cancel of an atom; unless this tick left the atom outstanding, the actor has carried it. -/
def ofCancel (outstanding : Array (Entry Status)) (atom : Nat) : Milestone :=
  canceled atom (outstanding.all fun entry => decide (entry.atom ≠ atom))

/-- One milestone may come before another, with any others in between: invocations rise, no atom is
canceled twice or before it is invoked, and what the actor has carried is not canceled any more
behind the invocation of a later atom. -/
def MayPrecede : Milestone → Milestone → Prop
  | invoked atom _, invoked later _ => atom < later
  | invoked atom _, canceled later carried => carried = true → atom ≤ later
  | canceled atom _, invoked later _ => atom ≠ later
  | canceled atom _, canceled later _ => atom ≠ later
  | invoked _ _, drained | canceled _ _, drained | drained, _ => True

end Milestone

/-- What an event shows of a milestone. -/
def Event.milestone? : Event β → Option Milestone
  | .noticed atom flags moment =>
      if flags = (.enter ||| .fromTop) then some (.invoked atom moment.machine.pending.isEmpty)
      else if flags = (.cancel ||| .enter) then
        some (.ofCancel moment.machine.outstanding.contents atom)
      else none
  | .logged (.spanDrained _ _ _) => some .drained
  | .logged _ | .called _ _ _ _ => none

/-- A minor event shows no milestone. -/
theorem Event.milestone?_of_isMinor {event : Event β}
    (minor : event.isMinor = true) : event.milestone? = none := by
  cases event with
  | noticed => cases minor
  | called => rfl
  | logged event => cases event <;> first | rfl | cases minor

/-- The milestones of a tick so far, in order. -/
def Tick.chronicle (tick : Tick β) : List Milestone :=
  tick.trace.toList.filterMap Event.milestone?

/-- The milestones come in an order that they may have, atoms are invoked only when nothing is
pending, and where no drain ends the cancels fall. -/
structure Orderly (told : List Milestone) : Prop where
  order : told.Pairwise Milestone.MayPrecede
  settled : ∀ atom settled, .invoked atom settled ∈ told → settled = true
  falls : ∀ between, between <:+: told → .drained ∉ between →
    (between.filterMap Milestone.canceled?).Pairwise (· > ·)

/-- Behind every cancel a drain has ended. -/
def Closed (told : List Milestone) : Prop :=
  ∀ behind, behind <:+ told → .drained ∉ behind → behind.filterMap Milestone.canceled? = []

namespace Orderly
variable {told more : List Milestone}

theorem of_falling (order : told.Pairwise Milestone.MayPrecede)
    (settled : ∀ atom settled, .invoked atom settled ∈ told → settled = true)
    (falling : (told.filterMap Milestone.canceled?).Pairwise (· > ·)) : Orderly told :=
  ⟨order, settled, fun _ between _ => falling.sublist (between.sublist.filterMap _)⟩

theorem nil : Orderly [] := of_falling .nil (fun _ _ member => by cases member) .nil

/-- An orderly chronicle goes on in good order if all drains have ended. -/
theorem append (first : Orderly told) (closed : Closed told) (second : Orderly more)
    (across : ∀ earlier ∈ told, ∀ later ∈ more, earlier.MayPrecede later) :
    Orderly (told ++ more) where
  order := List.pairwise_append.mpr ⟨first.order, second.order, across⟩
  settled atom settled member := by
    rcases List.mem_append.mp member with earlier | later
    · exact first.settled atom settled earlier
    · exact second.settled atom settled later
  falls between within undrained := by
    rcases List.infix_append_iff.mp within with earlier | later | ⟨front, back, rfl, behind, ahead⟩
    · exact first.falls between earlier undrained
    · exact second.falls between later undrained
    · rw [List.mem_append, not_or] at undrained
      rw [List.filterMap_append, closed front behind undrained.1, List.nil_append]
      exact second.falls back ahead.isInfix undrained.2

end Orderly

namespace Closed
variable {told more : List Milestone}

theorem of_no_cancel (none : told.filterMap Milestone.canceled? = []) : Closed told := by
  intro behind suffix_ undrained
  have kept := suffix_.sublist.filterMap Milestone.canceled?
  rw [none] at kept
  exact List.sublist_nil.mp kept

/-- The end of a drain closes a chronicle. -/
theorem drained (told : List Milestone) : Closed (told ++ [.drained]) := by
  intro behind suffix_ undrained
  rcases List.suffix_concat_iff.mp suffix_ with rfl | ⟨front, rfl, -⟩
  · rfl
  · simp at undrained

theorem append (first : Closed told) (second : Closed more) : Closed (told ++ more) := by
  intro behind ⟨front, whole⟩ undrained
  rcases List.append_eq_append_iff.mp whole with ⟨between, rfl, rfl⟩ | ⟨between, rfl, rfl⟩
  · rw [List.mem_append, not_or] at undrained
    rw [List.filterMap_append, first between ⟨front, rfl⟩ undrained.1,
      second more (List.suffix_refl more) undrained.2]
    rfl
  · exact second behind ⟨between, rfl⟩ undrained

end Closed

namespace Tick
variable {tick middle after : Tick β} {setting : Setting β}

theorem chronicle_emit (tick : Tick β) (event : Event β) :
    (tick.emit event).chronicle = tick.chronicle ++ event.milestone?.toList := by
  simp only [chronicle, emit, Array.toList_push, List.filterMap_append]
  cases shown : event.milestone? <;> simp [shown]

theorem chronicle_notify (watched : setting.monitored = true) (tick : Tick β) (atom : Nat)
    (flags : Flags) : (tick.notify setting atom flags).chronicle =
      tick.chronicle ++ (Event.noticed atom flags tick.toMoment).milestone?.toList := by
  rw [notify, if_pos watched, chronicle_emit]

/-- An operation leaves alone where the traversal stands, what is pending and what is
outstanding. -/
structure Stays (before after : Tick β) : Prop where
  entries : after.actor.outstanding.entries = before.actor.outstanding.entries
  control : SameControl before.machine after.machine
  pending : after.machine.pending = before.machine.pending
  outstanding : after.machine.outstanding = before.machine.outstanding
  outstandingCursor : after.machine.outstandingCursor = before.machine.outstandingCursor

namespace Stays

theorem refl (tick : Tick β) : tick.Stays tick := ⟨rfl, .refl _, rfl, rfl, rfl⟩

theorem trans (first : tick.Stays middle) (second : middle.Stays after) : tick.Stays after :=
  ⟨second.entries.trans first.entries, first.control.trans second.control,
    second.pending.trans first.pending, second.outstanding.trans first.outstanding,
    second.outstandingCursor.trans first.outstandingCursor⟩

end Stays

theorem stays_notify (tick : Tick β) (setting : Setting β) (atom : Nat) (flags : Flags) :
    tick.Stays (tick.notify setting atom flags) := by
  unfold notify
  split <;> exact ⟨rfl, .refl _, rfl, rfl, rfl⟩

theorem Calm.stays (calm : tick.Calm after) : tick.Stays after := by
  obtain ⟨seed, actor⟩ := calm.actor
  obtain ⟨_, _, _, _, machine, -, -⟩ := calm.machine
  constructor
  case entries => rw [actor]
  all_goals rw [machine]
  exact ⟨rfl, rfl, rfl, rfl⟩

theorem Calm.chronicle_eq (calm : tick.Calm after) : after.chronicle = tick.chronicle :=
  calm.filterMap_trace Event.milestone?_of_isMinor

/-- The cancellation of an atom of the shape is a milestone. -/
theorem chronicle_cancelAt (watched : setting.monitored = true) (tick : Tick β) (index : Nat) :
    (tick.cancelAt setting index).Ensures fun after => tick.Stays after ∧
      ∃ told : List Nat, told.Sublist [index] ∧ after.chronicle =
        tick.chronicle ++ told.map (.ofCancel tick.machine.outstanding.contents) := by
  unfold cancelAt
  split
  · exact ensures_ok.mpr ⟨⟨rfl, .refl _, rfl, rfl, rfl⟩, [], List.nil_sublist _,
      chronicle_emit _ _⟩
  · refine (calm_cancelAtom _ setting index _).bind fun canceled calm => ensures_pure.mpr ?_
    refine ⟨((tick.stays_notify setting index _).trans calm.stays).trans
      (canceled.stays_notify setting index _), [index], .refl _, ?_⟩
    rw [chronicle_notify watched, calm.chronicle_eq, chronicle_notify watched]
    exact List.append_nil _

theorem chronicle_cancelAll (watched : setting.monitored = true) (indices : List Nat)
    (tick : Tick β) :
    (cancelAll setting indices tick).Ensures fun after => tick.Stays after ∧
      ∃ told : List Nat, told.Sublist indices ∧ after.chronicle =
        tick.chronicle ++ told.map (.ofCancel tick.machine.outstanding.contents) := by
  induction indices generalizing tick with
  | nil => exact ensures_ok.mpr ⟨.refl tick, [], .slnil, (List.append_nil _).symm⟩
  | cons index indices ih =>
    refine (chronicle_cancelAt watched tick index).bind fun middle
      ⟨stays, told, sublist, chronicle⟩ => ?_
    refine (ih middle).mono fun after ⟨stays_after, more, rest, chronicle_after⟩ => ?_
    refine ⟨stays.trans stays_after, told ++ more, sublist.append rest, ?_⟩
    rw [chronicle_after, chronicle, stays.outstanding, List.map_append, List.append_assoc]

end Tick

/-- What needs a cancel is named from both sources, those of the actor first, each from its end. -/
theorem Candidate.canceled_sublist (shape : Shape β) {fresh carried : List (Entry Status)}
    (larger : ∀ first ∈ fresh, ∀ second ∈ carried, first.atom < second.atom) :
    (canceled (merge shape fresh carried)).Sublist
      ((carried.map Entry.atom).reverse ++ (fresh.map Entry.atom).reverse) := by
  have atoms : (merge shape fresh carried).map Candidate.atom =
      (carried.map Entry.atom).reverse ++ (fresh.map Entry.atom).reverse := by
    rw [merge_of_larger shape larger, List.map_append, List.map_reverse, List.map_reverse,
      List.map_map, List.map_map]
    rfl
  rw [← atoms]
  exact List.filter_sublist.map _

/-- What needs a cancel falls. -/
theorem Candidate.canceled_falls (shape : Shape β) {fresh carried : List (Entry Status)}
    (ascending : Ascending fresh) (ready : Ascending carried)
    (larger : ∀ first ∈ fresh, ∀ second ∈ carried, first.atom < second.atom) :
    (canceled (merge shape fresh carried)).Pairwise (· > ·) := by
  refine List.Pairwise.sublist (canceled_sublist shape larger)
    (List.pairwise_append.mpr ⟨?_, ?_, ?_⟩)
  · rw [List.pairwise_reverse, List.pairwise_map]
    exact ready
  · rw [List.pairwise_reverse, List.pairwise_map]
    exact ascending
  · simp only [List.mem_reverse, List.mem_map]
    rintro _ ⟨second, right, rfl⟩ _ ⟨first, left, rfl⟩
    exact larger first left second right

/-- A drain that has something to drain, where a cursor has passed what lies before a bound: the
cancels fall, and each is for something that the actor carries between the bound and the limit or
for something that this tick left outstanding and that no longer is. -/
structure Tick.Drained (carried : Array (Entry Status)) (bound limit : Nat) (canceled : List Nat)
    (before after : Tick β) : Prop where
  chronicle : after.chronicle = before.chronicle ++
    (canceled.map (.ofCancel before.machine.outstanding.contents) ++ [.drained])
  falls : canceled.Pairwise (· > ·)
  found : ∀ atom ∈ canceled, (bound ≤ atom ∧ atom < limit) ∨
    (∃ entry ∈ before.machine.outstanding.contents.toList, entry.atom = atom) ∧
      ∀ entry ∈ after.machine.outstanding.contents.toList, entry.atom ≠ atom
  kept : after.machine.outstanding.contents.toList.Sublist
    before.machine.outstanding.contents.toList
  entries : after.actor.outstanding.entries = carried
  splits : Splits carried limit after.machine.outstandingCursor
  control : SameControl before.machine after.machine
  settled : after.machine.pending.isEmpty = true

theorem Tick.drained_of_drain {tick : Tick β} {setting : Setting β}
    (watched : setting.monitored = true) {carried : Array (Entry Status)} {bound : Nat}
    (ready : Ascending carried.toList) (same : tick.actor.outstanding.entries = carried)
    (splits : Splits carried bound tick.machine.outstandingCursor)
    (ascending : Ascending tick.machine.outstanding.contents.toList)
    (dealt : ∀ entry ∈ tick.machine.outstanding.contents.toList, entry.atom < bound)
    (busy : tick.machine.pending.isEmpty = false) :
    (tick.drain setting).Ensures fun after => ∃ canceled,
      Drained carried bound (max bound tick.machine.pending.stop) canceled tick after := by
  have nonempty := (Span.isEmpty_eq_false_iff _).mp busy
  obtain ⟨first, passed, advanced, -, point, window, passing⟩ :=
    splits.window ready tick.machine.pending.start tick.machine.pending.stop
  have limit : max (max bound tick.machine.pending.start) tick.machine.pending.stop =
      max bound tick.machine.pending.stop := by omega
  rw [limit] at passing
  have cut : Splits tick.machine.outstanding.contents tick.machine.pending.start
      (partitionPoint tick.machine.outstanding.contents fun entry =>
        decide (entry.atom < tick.machine.pending.start)) :=
    .partitionPoint ascending tick.machine.pending.start
  simp only [key_entry] at point
  simp only [drain, busy, Bool.false_eq_true, if_false, same, advanced, point]
  generalize partitionPoint tick.machine.outstanding.contents (fun entry =>
    decide (entry.atom < tick.machine.pending.start)) = kept at cut
  have fresh := cut.toList_drop
  have stays := cut.toList_take
  rw [← toList_arrayDrop] at fresh
  rw [← toList_arrayTake] at stays
  simp only [key_entry] at fresh stays window
  -- The actor's part of the span lies behind all that this tick has dealt with.
  have reached : ∀ entry ∈ ((carried.drop first).take passed).toList,
      bound ≤ entry.atom ∧ entry.atom < tick.machine.pending.stop := by
    intro entry member
    rw [window] at member
    have ahead := (List.mem_filter.mp member).2
    simp only [Bool.and_eq_true, decide_eq_true_eq] at ahead
    omega
  have held : ∀ entry ∈ (tick.machine.outstanding.contents.drop kept).toList,
      entry ∈ tick.machine.outstanding.contents.toList ∧
        tick.machine.pending.start ≤ entry.atom := by
    intro entry member
    rw [fresh] at member
    obtain ⟨held, behind⟩ := List.mem_filter.mp member
    exact ⟨held, by simpa using behind⟩
  have larger : ∀ entry ∈ (tick.machine.outstanding.contents.drop kept).toList,
      ∀ other ∈ ((carried.drop first).take passed).toList, entry.atom < other.atom :=
    fun entry left other right =>
      Nat.lt_of_lt_of_le (dealt entry (held entry left).1) (reached other right).1
  have named := Candidate.canceled_sublist setting.shape larger
  have falls := Candidate.canceled_falls setting.shape
    (by rw [fresh]; exact ascending.filter _) (by rw [window]; exact ready.filter _) larger
  refine (ensures_true _).bind fun _ _ => (ensures_true _).bind fun _ _ => ?_
  refine (chronicle_cancelAll watched _ _).bind fun middle cancels => ?_
  obtain ⟨undisturbed, told, sublist, shown⟩ := cancels
  refine (Buffer.ensures_truncate _ _).bind fun outstanding truncated => ensures_pure.mpr ?_
  have left : outstanding.contents.toList = tick.machine.outstanding.contents.toList.filter
      fun entry => decide (entry.atom < tick.machine.pending.start) := by
    rw [truncated.1, undisturbed.outstanding, stays]
  refine ⟨told, ?_, falls.sublist sublist, ?_, ?_, ?_, ?_, undisturbed.control, ?_⟩
  · rw [log, chronicle_emit]
    exact (congrArg (· ++ [Milestone.drained]) shown).trans (List.append_assoc _ _ _)
  · intro atom member
    have source := (sublist.trans named).subset member
    simp only [List.mem_append, List.mem_reverse, List.mem_map] at source
    rcases source with ⟨entry, right, rfl⟩ | ⟨entry, fallen, rfl⟩
    · obtain ⟨behind, before⟩ := reached entry right
      exact Or.inl ⟨behind, Nat.lt_of_lt_of_le before (Nat.le_max_right _ _)⟩
    · obtain ⟨present, behind⟩ := held entry fallen
      refine Or.inr ⟨⟨entry, present, rfl⟩, fun other still => ?_⟩
      have kept_before : other ∈ tick.machine.outstanding.contents.toList.filter
          fun entry => decide (entry.atom < tick.machine.pending.start) := left ▸ still
      have before := of_decide_eq_true (List.mem_filter.mp kept_before).2
      omega
  · show outstanding.contents.toList.Sublist _
    rw [left]
    exact List.filter_sublist
  · exact undisturbed.entries.trans same
  · have cursor : middle.machine.outstandingCursor = first + passed := undisturbed.outstandingCursor
    show Splits carried _ middle.machine.outstandingCursor
    rw [cursor]
    exact passing
  · show middle.machine.pending.isEmpty = true
    rw [undisturbed.pending]
    rfl

end BehaviorTree
