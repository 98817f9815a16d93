import BehaviorTree.Machine.Step
import BehaviorTree.Proofs.Storage.Outcomes

namespace BehaviorTree
open Checked
variable {β : Type}

/-- The continuations and changes that a machine has emitted, and the room in which they are sorted,
hold something else. -/
inductive Machine.Rearranges (machine : Machine) : Machine → Prop
  | into {frames : Buffer Frame} {continuations : Buffer (Entry Nat)}
      {changes : Buffer (Entry Status)} {changeScratch : Array (Entry Status)}
      (frames_room : frames.capacity = machine.frames.capacity)
      (continuations_room : continuations.capacity = machine.continuations.capacity)
      (changes_room : changes.capacity = machine.changes.capacity)
      (scratch_room : changeScratch.size = machine.changeScratch.size) :
      Rearranges machine { machine with frames, continuations, changes, changeScratch }

namespace Tick

/-- What relates a tick to the one after a cancellation relates it to the one after any number of
them. -/
theorem ensures_cancelAll {setting : Setting β} {related : Tick β → Tick β → Prop}
    (step : ∀ tick index, (cancelAt tick setting index).Ensures (related tick))
    (refl : ∀ tick, related tick tick)
    (trans : ∀ {first second third}, related first second → related second third →
      related first third)
    (indices : List Nat) (tick : Tick β) :
    (cancelAll setting indices tick).Ensures (related tick) := by
  induction indices generalizing tick with
  | nil => exact ensures_ok.mpr (refl tick)
  | cons index indices ih =>
    refine (step tick index).bind fun canceled first => ?_
    exact (ih canceled).mono fun after rest => trans first rest

/-- The tick in which a drain cancels: nothing is pending any more, and what the actor has in the
span is passed. -/
def emptied (tick : Tick β) : Tick β :=
  let carried := tick.actor.outstanding.entries
  let first := Ordered.advance carried tick.machine.pending.start tick.machine.outstandingCursor
  let passed := Ordered.partitionPoint (carried.drop first) fun entry =>
    decide (entry.atom < tick.machine.pending.stop)
  { tick with
    machine.pending := .empty
    machine.outstandingCursor := first + passed }

/-- What a drain comes to: nothing is done, or what is pending is canceled and taken back. -/
inductive Clears (setting : Setting β) (tick : Tick β) : Tick β → Prop
  | idle (idle : tick.machine.pending.isEmpty = true) : Clears setting tick tick
  | cancels {indices : List Nat} {kept : Nat} {canceled : Tick β}
      {outstanding : Buffer (Entry Status)} (busy : tick.machine.pending.isEmpty = false)
      (cancels : cancelAll setting indices tick.emptied = .ok canceled)
      (cut : canceled.machine.outstanding.truncate kept = .ok outstanding) :
      Clears setting tick ({ canceled with machine.outstanding := outstanding }.log
        (.spanDrained tick.machine.pending.start tick.machine.pending.stop indices.length))

theorem drain_clears (tick : Tick β) (setting : Setting β) :
    (tick.drain setting).Ensures (tick.Clears setting) := by
  unfold drain
  simp only
  split
  · next idle => exact ensures_pure.mpr (.idle idle)
  · next busy =>
    refine (ensures_true _).bind fun _ _ => (ensures_true _).bind fun _ _ => ?_
    refine (ensures_self _).bind fun canceled cancels => ?_
    refine (ensures_self _).bind fun outstanding cut => ensures_pure.mpr ?_
    exact .cancels (Bool.eq_false_iff.mpr busy) cancels cut

/-- What a reorder comes to: the machine is rearranged, and at most it is reported that a stack was
not enough. -/
inductive Reorders (tick : Tick β) : Tick β → Prop
  | silently {machine : Machine} (rearranges : tick.machine.Rearranges machine) :
      Reorders tick { tick with machine }
  | reporting {machine : Machine} {continuations changes : Bool}
      (rearranges : tick.machine.Rearranges machine) :
      Reorders tick (({ tick with machine } : Tick β).log (.generalSort continuations changes))

theorem reorder_reorders (tick : Tick β) : tick.reorder.Ensures tick.Reorders := by
  refine (ensures_true _).bind fun slots _ => (ensures_true _).bind fun continuations _ => ?_
  have scratch : (Ordered.reorder tick.machine.changes.contents tick.machine.changeScratch).Ensures
      fun changes => changes.slots.size = tick.machine.changeScratch.size := by
    intro changes ordered
    obtain ⟨same, sorted, sorts⟩ := Ordered.reorder_sorts tick.machine.changes.contents
      tick.machine.changeScratch
    obtain rfl := Except.ok.inj (sorted.symm.trans ordered)
    exact sorts.size
  refine scratch.bind fun changes size => ?_
  have rearranges : tick.machine.Rearranges { tick.machine with
      continuations := tick.machine.continuations.overwrite continuations.entries
      frames := tick.machine.frames.restore continuations.slots
      changes := tick.machine.changes.overwrite changes.entries
      changeScratch := changes.slots } :=
    .into (Buffer.capacity_restore _ _) (Buffer.capacity_overwrite _ _)
      (Buffer.capacity_overwrite _ _) size
  simp only
  split
  · exact ensures_pure.mpr (.silently rearranges)
  · exact ensures_pure.mpr (.reporting rearranges)

end Tick

end BehaviorTree
