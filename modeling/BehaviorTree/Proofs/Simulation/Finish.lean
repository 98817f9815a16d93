import BehaviorTree.Machine.Run
import BehaviorTree.Proofs.Ordered.Reorder
import BehaviorTree.Proofs.Simulation.Tree

namespace BehaviorTree
open Machine Ordered
variable {β : Type} {scene : Scene β} {capacities : Capacities} {earlier : List Call}
  {position : Nat} {tick : Tick β} {course : Course β}

/-- The tick is over, and its machine holds what the course has left, in the order of the atoms. -/
structure Settled (scene : Scene β) (capacities : Capacities) (earlier : List Call)
    (tick : Tick β) (course : Course β) : Prop where
  command : tick.machine.command = .done
  board : tick.board = course.board
  actor : tick.actor = { scene.actor with seed := course.seed }
  calls : tick.calls = earlier ++ course.calls
  continuations : tick.machine.continuations.contents = sortByKey course.continuations.toArray
  outstanding : tick.machine.outstanding.contents.toList = course.outstanding
  launches : tick.machine.requests.launches.toList = course.launches
  cancels : tick.machine.requests.cancels.toList =
    (scene.cancelRequests course.canceled).reverse
  changes : tick.machine.changes.contents.toList.Perm (scene.slotChanges course.canceled)
  changes_ascending : Ascending tick.machine.changes.contents.toList
  sized : tick.machine.Sized
  capacities : tick.machine.capacities = capacities

/-- A tick with what it emitted as two reorders have put it, and with the storage that they were
lent. -/
def Tick.arranged (tick : Tick β) (continuations : Reordered (Entry Nat) Frame)
    (changes : Reordered (Entry Status) (Entry Status)) : Tick β :=
  { tick with machine := { tick.machine with
    continuations := tick.machine.continuations.overwrite continuations.entries
    frames := tick.machine.frames.restore continuations.slots
    changes := tick.machine.changes.overwrite changes.entries
    changeScratch := changes.slots } }

/-- Where no decider is open, what was emitted is arranged; a general sort is reported. -/
theorem Tick.reorder_eq {tick : Tick β} (closed : tick.machine.frames.contents.toList = [])
    {continuations : Reordered (Entry Nat) Frame} {changes : Reordered (Entry Status) (Entry Status)}
    (sorted : Ordered.reorder tick.machine.continuations.contents tick.machine.frames.slots =
      .ok continuations)
    (changes_sorted : Ordered.reorder tick.machine.changes.contents tick.machine.changeScratch =
      .ok changes) :
    tick.reorder = .ok (if continuations.linear && changes.linear
      then tick.arranged continuations changes
      else (tick.arranged continuations changes).log
        (.generalSort continuations.linear changes.linear)) := by
  simp only [Tick.reorder, Buffer.lend_empty closed, sorted, changes_sorted, bind, Except.bind,
    pure, Except.pure]
  split <;> rfl

namespace Ordered.Sorts
variable {α σ : Type} [Keyed α] {buffer : Buffer α} {slots : Array σ} {result : Reordered α σ}

/-- As many values are sorted as are held. -/
theorem size_entries (sorts : Sorts slots buffer.contents.toList result) :
    result.entries.size = buffer.count := by
  rw [← Array.length_toList, sorts.perm.length_eq, Buffer.length_contents]

/-- What is sorted takes the place of what is held. -/
theorem contents_overwrite (sorts : Sorts slots buffer.contents.toList result) :
    (buffer.overwrite result.entries).contents = result.entries :=
  Array.ext' (Buffer.contents_overwrite sorts.size_entries)

end Ordered.Sorts

namespace Mirror

/-- Where no decider is open, the emitted states can be sorted. -/
theorem reorder (mirror : Mirror scene capacities earlier position tick course)
    (sound : Sound scene position course) (closed : tick.machine.frames.contents.toList = []) :
    ∃ after, tick.reorder = .ok after ∧ after.machine.status = tick.machine.status ∧
      Settled scene capacities earlier (after.proceed .done) course := by
  obtain ⟨continuations, sorted, sorts⟩ := reorder_sorts tick.machine.continuations.contents
    tick.machine.frames.slots
  obtain ⟨changes, changes_sorted, changes_sorts⟩ := reorder_sorts
    tick.machine.changes.contents tick.machine.changeScratch
  have settled : Settled scene capacities earlier
      ((tick.arranged continuations changes).proceed .done) course := by
    have distinct : (course.continuations.toArray.toList.map key).Nodup := sound.distinct
    have changes_distinct : ((scene.slotChanges course.canceled).map key).Nodup := by
      have canceled := (List.nodup_append.mp sound.single).1
      rw [Scene.slotChanges, List.map_map]
      exact (canceled.filter _).map fun first second same => same
    have perm := sorts.perm
    have changes_perm := changes_sorts.perm
    rw [mirror.continuations] at perm
    rw [mirror.changes] at changes_perm
    refine ⟨rfl, mirror.board, mirror.actor, mirror.calls, ?_, mirror.outstanding,
      mirror.launches, mirror.cancels, ?_, ?_, ?_, mirror.capacities⟩
    · exact sorts.contents_overwrite.trans (eq_sortByKey perm sorts.ordered distinct).1
    · simp only [Tick.proceed, Tick.arranged]
      rw [changes_sorts.contents_overwrite]
      exact changes_perm
    · simp only [Tick.proceed, Tick.arranged]
      rw [changes_sorts.contents_overwrite]
      exact changes_sorts.ordered.ascending
        ((changes_perm.map key).nodup_iff.mpr changes_distinct)
    · simpa [Machine.Sized, Tick.proceed, Tick.arranged] using mirror.sized
  refine ⟨_, Tick.reorder_eq closed sorted changes_sorted, ?_, ?_⟩
  · split <;> rfl
  · split
    · exact settled
    · refine { settled with calls := ?_ }
      rw [← settled.calls]
      simp [Tick.calls, Tick.proceed, Tick.log, Tick.emit, Event.call?]

/-- The cleanup settles the drained course. -/
theorem step_cleanup (mirror : Mirror scene capacities earlier position tick course)
    (ready : scene.Ready) (covers : capacities.covers scene.shape.needs = true)
    (sound : Sound scene position course) {cursor : Nat}
    (standing : Stands tick .cleanup cursor []) :
    ∃ after, tick.step scene.toSetting = .ok after ∧
      after.machine.status = tick.machine.status ∧
      Settled scene capacities earlier after (course.drain scene) := by
  obtain ⟨drained, drains, ⟨-, status, -, frames⟩, drained_mirror⟩ :=
    (mirror.log (.stepStarted tick.machine.command tick.machine.cursor
      tick.machine.status)).drain ready covers sound
  have closed : drained.machine.frames.contents.toList = [] := by
    rw [frames]
    exact standing.frames
  have drained_sound := sound.drain ready
  obtain ⟨ordered, reordered, ordered_status, settled⟩ :=
    drained_mirror.reorder drained_sound closed
  have ascending : Ascending ordered.machine.outstanding.contents.toList := by
    have outstanding : ordered.machine.outstanding.contents.toList =
        (course.drain scene).outstanding := settled.outstanding
    rw [outstanding]
    exact drained_sound.ascending
  refine ⟨ordered.proceed .done, ?_, ordered_status.trans status, settled⟩
  simp only [Tick.step, standing.command] at drains ⊢
  simp only [Tick.cleanup, drains, reordered, require, ascending, decide_true, if_true, bind,
    Except.bind, pure, Except.pure]

end Mirror

namespace Machine

/-- Changes that ascend find their slots in one forward scan. -/
theorem writeChanges_eq {slotAtoms : Array Nat} (ascending : Ascending slotAtoms.toList)
    {changes : List (Entry Status)} (ordered : Ascending changes)
    (cancels : ∀ change ∈ changes, change.value = .cancel)
    (owned : ∀ change ∈ changes, change.atom ∈ slotAtoms.toList) {bound cursor : Nat}
    (splits : Splits slotAtoms bound cursor) (ahead : ∀ change ∈ changes, bound ≤ change.atom)
    {slots : Array Status} (size : slots.size = slotAtoms.size) :
    writeChanges slotAtoms changes cursor slots = .ok (slots.mapIdx fun slot status =>
      if slotAtoms[slot]?.any fun atom => decide (atom ∈ changes.map Entry.atom) then .cancel
      else status) := by
  induction changes generalizing bound cursor slots with
  | nil =>
    rw [writeChanges]
    congr 1
    apply Array.ext
    · simp
    · intro slot _ _
      simp
  | cons change rest ih =>
    obtain ⟨above, rest_ordered⟩ := List.pairwise_cons.mp ordered
    obtain ⟨position, after, taken, after_splits, delivered⟩ :=
      take_splits ascending splits (ahead change List.mem_cons_self)
    cases delivered with
    | miss absent =>
      obtain ⟨place, inside, here⟩ :=
        List.getElem_of_mem (owned change List.mem_cons_self)
      rw [Array.length_toList] at inside
      rw [Array.getElem_toList] at here
      exact absurd here (absent place inside)
    | hit slot inside found =>
      have within : slot < slots.size := by omega
      have size_after : (slots.set slot change.value within).size = slotAtoms.size := by
        simpa using size
      have written := ih rest_ordered
        (fun other member => cancels other (List.mem_cons_of_mem _ member))
        (fun other member => owned other (List.mem_cons_of_mem _ member)) after_splits
        (fun other member => above other member) size_after
      simp only [writeChanges, taken, bind, Except.bind, dif_pos within, written]
      congr 1
      apply Array.ext
      · simp
      · intro other left right
        have other_inside : other < slotAtoms.size := by
          rw [Array.size_mapIdx] at right
          omega
        have read : slotAtoms[other]? = some slotAtoms[other] :=
          Array.getElem?_eq_getElem other_inside
        simp only [Array.getElem_mapIdx, read, Option.any_some, List.map_cons, List.mem_cons]
        by_cases here : slot = other
        · subst here
          have mine : slotAtoms[slot] = change.atom := found
          simp [mine, cancels change List.mem_cons_self]
        · have distinct : slotAtoms[other] ≠ change.atom := by
            intro same
            rcases Nat.lt_or_gt_of_ne here with less | more
            · have := key_lt_of_lt ascending less other_inside
              rw [found, key_nat, same] at this
              exact Nat.lt_irrefl _ this
            · have := key_lt_of_lt ascending more inside
              rw [found, key_nat, same] at this
              exact Nat.lt_irrefl _ this
          have other_within : other < slots.size := by omega
          rw [Array.getElem_set_ne _ other_within here]
          simp [distinct]

end Machine

/-- The tick has done what its course says: the actor, the blackboard and the queue are left as the
course leaves them, and the machine is ready for the next tick. -/
structure Performs (scene : Scene β) (before : Tick β) (course : Course β) (after : Tick β) :
    Prop where
  command : after.machine.command = .done
  board : after.board = course.board
  calls : after.calls = before.calls ++ course.calls
  id : after.actor.id = scene.actor.id
  handle : after.actor.handle = scene.actor.handle
  seed : after.actor.seed = course.seed
  slots : after.actor.slots = scene.slotsAfter course.canceled
  continuations : after.actor.continuations.entries = sortByKey course.continuations.toArray
  continuations_capacity :
    after.actor.continuations.capacity = scene.actor.continuations.capacity
  continuations_written : after.actor.continuations =
    scene.actor.continuations.overwrite after.actor.continuations.entries
  outstanding : after.actor.outstanding.entries = course.outstanding.toArray
  outstanding_capacity : after.actor.outstanding.capacity = scene.actor.outstanding.capacity
  outstanding_written : after.actor.outstanding =
    scene.actor.outstanding.overwrite after.actor.outstanding.entries
  launches : after.machine.requests.launches.toList = course.launches
  cancels : after.machine.requests.cancels.toList =
    (scene.cancelRequests course.canceled).reverse
  changes : after.machine.changes.contents.toList.Perm (scene.slotChanges course.canceled)
  sized : after.machine.Sized
  capacities : after.machine.capacities = before.machine.capacities

/-- The storage keeps its size when it is written over. -/
theorem SparseStates.capacity_overwrite {ν : Type} {states : SparseStates ν}
    {entries : Array (Entry ν)} (fits : entries.size ≤ states.capacity) :
    (states.overwrite entries).capacity = states.capacity := by
  simp only [overwrite, capacity, Array.drop, Array.size_extract, Array.size_append] at fits ⊢
  omega

/-- What the actor must offer for the state that a course leaves. -/
theorem Actor.supports_iff (actor : Actor) (needs : Capacities) :
    actor.supports needs = true ↔ actor.slots.size = needs.slots ∧
      needs.continuations ≤ actor.continuations.capacity ∧
      needs.outstanding ≤ actor.outstanding.capacity := by
  simp [supports, and_assoc]

theorem Actor.isAscending_iff (actor : Actor) : actor.isAscending = true ↔
    Ascending actor.continuations.entries.toList ∧ Ascending actor.outstanding.entries.toList := by
  simp [isAscending, SparseStates.isAscending]

/-- The sparse arrays that a course leaves ascend again. -/
theorem Performs.ascending {before after : Tick β} (performs : Performs scene before course after)
    (sound : Sound scene position course) : after.actor.isAscending = true := by
  have perm := sortByKey_perm course.continuations.toArray
  rw [Actor.isAscending_iff, performs.continuations, performs.outstanding]
  exact ⟨(sortByKey_nonDecreasing _).ascending ((perm.map key).nodup_iff.mpr sound.distinct),
    sound.ascending⟩

/-- The slots of the persistent actions among the canceled atoms are written. -/
theorem Scene.writeChanges_slotsAfter {canceled : List Nat} {changes : List (Entry Status)}
    (perm : changes.Perm (scene.slotChanges canceled)) (ascending : Ascending changes)
    (size : scene.actor.slots.size = scene.shape.slotAtoms.size) :
    writeChanges scene.shape.slotAtoms changes 0 scene.actor.slots =
      .ok (scene.slotsAfter canceled) := by
  have member (atom : Nat) : atom ∈ changes.map Entry.atom ↔
      atom ∈ canceled ∧ (scene.shape.atom? atom).any Atom.isPersistent = true := by
    rw [(perm.map Entry.atom).mem_iff, slotChanges, List.map_map]
    simp
  have owned : ∀ change ∈ changes, change.atom ∈ scene.shape.slotAtoms.toList := by
    intro change present
    obtain ⟨node, stands, persistent⟩ := (Option.any_eq_true _ _).mp
      ((member change.atom).mp (List.mem_map_of_mem present)).2
    rw [Shape.mem_slotAtoms_iff]
    cases node with
    | persistent slot => exact ⟨slot, stands⟩
    | _ => cases persistent
  have cancels : ∀ change ∈ changes, change.value = .cancel := by
    intro change present
    obtain ⟨atom, -, rfl⟩ := List.mem_map.mp (perm.mem_iff.mp present)
    rfl
  rw [writeChanges_eq scene.shape.ascending_slotAtoms ascending cancels owned (.zero _)
    (fun change _ => Nat.zero_le _) size, slotsAfter]
  congr 2
  funext slot status
  cases owner : scene.shape.slotAtoms[slot]? with
  | none => rfl
  | some atom =>
    have persistent : (scene.shape.atom? atom).any Atom.isPersistent = true := by
      have present : atom ∈ scene.shape.slotAtoms.toList := by
        obtain ⟨inside, here⟩ := Array.getElem?_eq_some_iff.mp owner
        rw [← here]
        exact Array.getElem_mem_toList inside
      obtain ⟨number, stands⟩ := (scene.shape.mem_slotAtoms_iff atom).mp present
      rw [stands]
      rfl
    simp only [Option.any_some, member, persistent, and_true]

/-- The actor takes over what the course has left. -/
theorem Settled.finish (settled : Settled scene capacities earlier tick course)
    (sound : Sound scene position course)
    (supports : scene.actor.supports scene.shape.needs = true) (before : Tick β)
    (calls : before.calls = earlier) (machine : before.machine.capacities = capacities) :
    ∃ after, tick.finish scene.toSetting = .ok ⟨.ok tick.machine.status, after⟩ ∧
      Performs scene before course after := by
  obtain ⟨slots, continuations_room, outstanding_room⟩ :=
    (scene.actor.supports_iff scene.shape.needs).mp supports
  have actor := settled.actor
  have continuations_fit :
      tick.machine.continuations.contents.size ≤ scene.actor.continuations.capacity := by
    have perm := sortByKey_perm course.continuations.toArray
    rw [settled.continuations, ← Array.length_toList, perm.length_eq]
    exact Nat.le_trans sound.continuations_le continuations_room
  have outstanding_fit :
      tick.machine.outstanding.contents.size ≤ scene.actor.outstanding.capacity := by
    rw [← Array.length_toList, settled.outstanding]
    exact Nat.le_trans sound.outstanding_le outstanding_room
  have written := scene.writeChanges_slotsAfter settled.changes settled.changes_ascending slots
  let extracted : Actor := { scene.actor with
    seed := course.seed
    continuations := scene.actor.continuations.overwrite tick.machine.continuations.contents
    outstanding := scene.actor.outstanding.overwrite tick.machine.outstanding.contents
    slots := scene.slotsAfter course.canceled }
  have extracts : tick.machine.extract scene.shape tick.actor = .ok extracted := by
    rw [actor]
    simp only [extract, settled.command, beq_self_eq_true, require, if_true,
      SparseStates.replace?, if_pos continuations_fit, if_pos outstanding_fit, written, bind,
      Except.bind, pure, Except.pure]
    rfl
  have active : tick.machine.command ≠ .error := by
    rw [settled.command]
    exact Command.noConfusion
  refine ⟨{ tick with actor := extracted }.log (.tickFinished extracted.id tick.machine.status
    tick.machine.continuations.count tick.machine.outstanding.count
    tick.machine.requests.launchCount tick.machine.requests.cancelCount), ?_, ?_⟩
  · simp only [Tick.finish, if_neg active, extracts, bind, Except.bind, pure, Except.pure]
  · have finished_calls : (Tick.log { tick with actor := extracted } (.tickFinished extracted.id
        tick.machine.status tick.machine.continuations.count tick.machine.outstanding.count
        tick.machine.requests.launchCount tick.machine.requests.cancelCount)).calls =
          before.calls ++ course.calls := by
      rw [calls, ← settled.calls]
      simp [Tick.calls, Tick.log, Tick.emit, Event.call?]
    exact ⟨settled.command, settled.board, finished_calls, rfl, rfl, rfl, rfl,
      settled.continuations, SparseStates.capacity_overwrite continuations_fit, rfl,
      Array.ext' settled.outstanding, SparseStates.capacity_overwrite outstanding_fit, rfl,
      settled.launches, settled.cancels, settled.changes, settled.sized,
      settled.capacities.trans machine.symm⟩

end BehaviorTree
