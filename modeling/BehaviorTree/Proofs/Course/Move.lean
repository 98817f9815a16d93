import BehaviorTree.Proofs.Course.Growth
import BehaviorTree.Proofs.Storage.Entries
import BehaviorTree.Proofs.Tree.Accepted
import Mathlib.Data.List.Nodup

namespace BehaviorTree
open Course
variable {β : Type}

/-- Both sparse arrays ascend, and no decider has an active entry. -/
structure Scene.Ready (scene : Scene β) : Prop where
  continuations : Ascending scene.actor.continuations.entries.toList
  outstanding : Ascending scene.actor.outstanding.entries.toList
  undecided : ∀ index rule stop, scene.shape.atom? index = some (.decider rule stop) →
    scene.wasActive index = false

/-- One move of a course, with the position before and after it. Nodes may only be passed if they
are quiet. -/
inductive Move (scene : Scene β) (quiet : Nat → Prop) :
    Nat → Course β → Nat → Course β → Prop
  | drain (position : Nat) (course : Course β) :
      Move scene quiet position course position (course.drain scene)
  | enter {position : Nat} {course : Course β} {rule : Rule} {stop : Nat}
      (stands : scene.shape.atom? position = some (.decider rule stop)) :
      Move scene quiet position course (position + 1) (course.enter position)
  | visit {position : Nat} {course : Course β} {leaf : Leaf}
      (stands : scene.shape.atom? position = some leaf.atom)
      (settled : course.pending.isEmpty = true) :
      Move scene quiet position course (position + 1) (course.visit scene position leaf).2
  | pass {position later : Nat} {course : Course β} (forward : position ≤ later)
      (inside : later ≤ scene.shape.size)
      (skipped : ∀ index, position ≤ index → index < later → quiet index) :
      Move scene quiet position course later course
  | record {position sequence stop child : Nat} {course : Course β}
      (stands : scene.shape.atom? sequence = some (.decider .sequence stop))
      (passed : sequence < position)
      (unrecorded : ∀ entry ∈ course.continuations, entry.atom ≠ sequence) :
      Move scene quiet position course position (course.record sequence child)
  | abandon {position later : Nat} {course : Course β} (forward : position ≤ later)
      (inside : later ≤ scene.shape.size) :
      Move scene quiet position course later (course.abandon ⟨position, later⟩)
  | fail {decider position stop : Nat} {entered course : Course β} (passed : decider < position)
      (forward : position ≤ stop) (inside : stop ≤ scene.shape.size)
      (grown : Grows (decider + 1) entered course)
      (before : ∀ request ∈ entered.launches, request.atom < decider) :
      Move scene quiet position course stop ((course.takeBack entered).abandon ⟨decider, stop⟩)

/-- Moves one after the other. -/
inductive Reaches (scene : Scene β) (quiet : Nat → Prop) (position : Nat) (course : Course β) :
    Nat → Course β → Prop
  | refl : Reaches scene quiet position course position course
  | tail {middle later : Nat} {between after : Course β}
      (first : Reaches scene quiet position course middle between)
      (last : Move scene quiet middle between later after) :
      Reaches scene quiet position course later after

namespace Reaches
variable {scene : Scene β} {quiet : Nat → Prop} {position middle later : Nat}
  {course between after : Course β}

theorem single (move : Move scene quiet position course later after) :
    Reaches scene quiet position course later after :=
  Reaches.refl.tail move

theorem trans (first : Reaches scene quiet position course middle between)
    (second : Reaches scene quiet middle between later after) :
    Reaches scene quiet position course later after := by
  induction second with
  | refl => exact first
  | tail _ last ih => exact ih.tail last

/-- What every move preserves, a run of moves preserves. -/
theorem invariant {holds : Nat → Course β → Prop}
    (step : ∀ position course later after, Move scene quiet position course later after →
      holds position course → holds later after)
    (reaches : Reaches scene quiet position course later after) (start : holds position course) :
    holds later after := by
  induction reaches with
  | refl => exact start
  | tail _ last ih => exact step _ _ _ _ last ih

end Reaches

/-- The bookkeeping of a course at a position. -/
structure Sound (scene : Scene β) (position : Nat) (course : Course β) : Prop where
  inside : position ≤ scene.shape.size
  frontier_le : course.frontier ≤ position
  pending_stop : course.pending.isEmpty = false →
    course.frontier ≤ course.pending.stop ∧ course.pending.stop ≤ position
  ascending : Ascending course.outstanding
  outstanding : ∀ entry ∈ course.outstanding, entry.atom < course.frontier ∧
    entry.value.isActive = true ∧ (scene.shape.atom? entry.atom).any Atom.isAction = true
  distinct : (course.continuations.map Entry.atom).Nodup
  continuations : ∀ entry ∈ course.continuations, entry.atom < position ∧
    (scene.shape.atom? entry.atom).any Atom.isSequence = true
  canceled : ∀ atom ∈ course.canceled, atom < course.frontier ∧
    (scene.shape.atom? atom).any Atom.isAction = true
  single : (course.canceled ++ course.outstanding.map Entry.atom).Nodup
  ordered : course.launches.Pairwise fun first second => first.atom < second.atom
  launches : ∀ request ∈ course.launches, ⟨request.atom, .launch⟩ ∈ course.outstanding ∧
    scene.shape.atom? request.atom = some (.deferred request.action request.resource) ∧
    (course.pending.isEmpty = false → request.atom < course.pending.start)

namespace Scene
variable {scene : Scene β}

/-- An action was outstanding if the actor has an active entry for it. -/
theorem Ready.wasActive_iff (ready : scene.Ready) (atom : Nat) :
    scene.wasActive atom = true ↔
      ∃ entry ∈ scene.actor.outstanding.entries.toList,
        entry.atom = atom ∧ entry.value.isActive = true := by
  rw [wasActive, Option.any_eq_true]
  constructor
  · rintro ⟨value, found, active⟩
    exact ⟨_, (SparseStates.find?_eq_some_iff ready.outstanding atom value).mp found, rfl, active⟩
  · rintro ⟨entry, member, rfl, active⟩
    exact ⟨entry.value,
      (SparseStates.find?_eq_some_iff ready.outstanding entry.atom entry.value).mpr member, active⟩

end Scene

namespace Course
variable {scene : Scene β} {course : Course β}

/-- What a drain cancels: what the actor had outstanding in the span that no visit has dealt with,
and what this tick left there that owes a cancel. -/
theorem mem_toCancel (ready : scene.Ready) (atom : Nat) :
    atom ∈ course.toCancel scene ↔
      (course.pending.contains atom = true ∧ course.frontier ≤ atom ∧
        scene.wasActive atom = true) ∨
      ∃ entry ∈ course.outstanding, entry.atom = atom ∧ course.pending.start ≤ atom ∧
        scene.owes entry = true := by
  rw [ready.wasActive_iff]
  simp only [toCancel, List.mem_append, List.mem_reverse, List.mem_map, List.mem_filter,
    Bool.and_eq_true, decide_eq_true_eq]
  refine or_congr ?_ ?_
  · constructor
    · rintro ⟨entry, ⟨member, ⟨covered, ahead⟩, active⟩, rfl⟩
      exact ⟨covered, ahead, entry, member, rfl, active⟩
    · rintro ⟨covered, ahead, entry, member, rfl, active⟩
      exact ⟨entry, ⟨member, ⟨covered, ahead⟩, active⟩, rfl⟩
  · constructor
    · rintro ⟨entry, ⟨member, reached, owes⟩, rfl⟩
      exact ⟨entry, member, rfl, reached, owes⟩
    · rintro ⟨entry, member, rfl, reached, owes⟩
      exact ⟨entry, ⟨member, reached, owes⟩, rfl⟩

/-- A drain cancels the largest atom first. -/
theorem pairwise_toCancel (ready : scene.Ready) (ascending : Ascending course.outstanding)
    (dealt : ∀ entry ∈ course.outstanding, entry.atom < course.frontier) :
    (course.toCancel scene).Pairwise (· > ·) := by
  have falls (entries : List (Entry Status)) (ordered : Ascending entries)
      (keeps : Entry Status → Bool) :
      ((entries.filter keeps).map Entry.atom).reverse.Pairwise (· > ·) := by
    rw [List.pairwise_reverse, List.pairwise_map]
    exact ordered.filter keeps
  rw [toCancel, List.pairwise_append]
  refine ⟨falls _ ready.outstanding _, falls _ ascending _, ?_⟩
  intro first carried second fresh
  simp only [List.mem_reverse, List.mem_map, List.mem_filter, Bool.and_eq_true,
    decide_eq_true_eq] at carried fresh
  obtain ⟨entry, ⟨-, ⟨-, ahead⟩, -⟩, rfl⟩ := carried
  obtain ⟨other, ⟨member, -⟩, rfl⟩ := fresh
  have := dealt other member
  omega

/-- A drain cancels no atom twice. -/
theorem nodup_toCancel (ready : scene.Ready) (ascending : Ascending course.outstanding)
    (dealt : ∀ entry ∈ course.outstanding, entry.atom < course.frontier) :
    (course.toCancel scene).Nodup :=
  (pairwise_toCancel ready ascending dealt).imp fun less => (Nat.ne_of_lt less).symm

end Course

namespace Sound
variable {scene : Scene β} {position : Nat} {course : Course β}

/-- Nothing has happened, so nothing is wrong. -/
theorem opening (scene : Scene β) (board : β) : Sound scene 0 (scene.opening board) where
  inside := Nat.zero_le _
  frontier_le := Nat.le_refl 0
  pending_stop nonempty := by cases nonempty
  ascending := List.Pairwise.nil
  outstanding entry member := by cases member
  distinct := List.nodup_nil
  continuations entry member := by cases member
  canceled atom member := by cases member
  single := List.nodup_nil
  ordered := List.Pairwise.nil
  launches request member := by cases member

/-- Only nodes that have been passed are left outstanding. -/
theorem outstanding_lt (sound : Sound scene position course) {entry : Entry Status}
    (member : entry ∈ course.outstanding) : entry.atom < position :=
  Nat.lt_of_lt_of_le (sound.outstanding entry member).1 sound.frontier_le

/-- Only nodes that have been passed are canceled. -/
theorem canceled_lt (sound : Sound scene position course) {atom : Nat}
    (member : atom ∈ course.canceled) : atom < position :=
  Nat.lt_of_lt_of_le (sound.canceled atom member).1 sound.frontier_le

/-- Launches are requested only at nodes that have been passed. -/
theorem launch_lt (sound : Sound scene position course) {request : Request}
    (member : request ∈ course.launches) : request.atom < position :=
  sound.outstanding_lt (sound.launches request member).1

/-- A sequence that is only now reached has no continuation. -/
theorem unrecorded (sound : Sound scene position course) {sequence : Nat}
    (ahead : position ≤ sequence) : ∀ entry ∈ course.continuations, entry.atom ≠ sequence := by
  intro entry member
  have := (sound.continuations entry member).1
  omega

/-- What a drain cancels are actions of the shape. -/
theorem isAction_of_toCancel (ready : scene.Ready) (sound : Sound scene position course)
    (nonempty : course.pending.isEmpty = false) {atom : Nat}
    (member : atom ∈ course.toCancel scene) :
    (scene.shape.atom? atom).any Atom.isAction = true := by
  rcases (mem_toCancel ready atom).mp member with ⟨covered, -, active⟩ | ⟨entry, held, rfl, -, -⟩
  · have stop := ((course.pending.contains_iff atom).mp covered).2
    have within := (sound.pending_stop nonempty).2
    have inside : atom < scene.shape.size := by
      have := sound.inside
      omega
    obtain ⟨node, stands⟩ :=
      Option.isSome_iff_exists.mp ((scene.shape.atom?_isSome_iff atom).mpr inside)
    rw [stands]
    cases node with
    | decider rule stop =>
      rw [ready.undecided atom rule stop stands] at active
      cases active
    | _ => rfl
  · exact (sound.outstanding entry held).2.2

theorem drain (ready : scene.Ready) (sound : Sound scene position course) :
    Sound scene position (course.drain scene) := by
  by_cases empty : course.pending.isEmpty = true
  · rw [drain_of_isEmpty scene empty]
    exact sound
  rw [Bool.not_eq_true] at empty
  obtain ⟨board, seed, calls, drained⟩ := drain_eq scene empty
  obtain ⟨frontier_le, stop_le⟩ := sound.pending_stop empty
  have distinct := List.nodup_append.mp sound.single
  rw [drained]
  refine ⟨sound.inside, ?_, (fun nonempty => by cases nonempty), sound.ascending.filter _, ?_,
    sound.distinct, sound.continuations, ?_, ?_, sound.ordered, ?_⟩
  · have := sound.frontier_le
    simp only
    omega
  · intro entry member
    obtain ⟨below, valid⟩ := sound.outstanding entry (List.mem_filter.mp member).1
    exact ⟨Nat.lt_of_lt_of_le below (Nat.le_max_left _ _), valid⟩
  · intro atom member
    rcases List.mem_append.mp member with earlier | now
    · obtain ⟨below, valid⟩ := sound.canceled atom earlier
      exact ⟨Nat.lt_of_lt_of_le below (Nat.le_max_left _ _), valid⟩
    · refine ⟨?_, sound.isAction_of_toCancel ready empty now⟩
      rcases (mem_toCancel ready atom).mp now with ⟨covered, -⟩ | ⟨entry, held, rfl, -⟩
      · exact Nat.lt_of_lt_of_le ((course.pending.contains_iff atom).mp covered).2
          (Nat.le_max_right _ _)
      · exact Nat.lt_of_lt_of_le (sound.outstanding entry held).1 (Nat.le_max_left _ _)
  · -- What is canceled now was neither canceled before nor stays outstanding.
    have kept : ((course.outstanding.filter fun entry =>
        decide (entry.atom < course.pending.start)).map Entry.atom).Sublist
          (course.outstanding.map Entry.atom) := List.filter_sublist.map _
    rw [List.append_assoc, List.nodup_append, List.nodup_append]
    refine ⟨distinct.1, ⟨nodup_toCancel ready sound.ascending fun entry member =>
      (sound.outstanding entry member).1, distinct.2.1.sublist kept, ?_⟩, ?_⟩
    · intro atom now other stays
      obtain ⟨entry, member, rfl⟩ := List.mem_map.mp stays
      obtain ⟨held, below⟩ := List.mem_filter.mp member
      rw [decide_eq_true_eq] at below
      rintro rfl
      have := (sound.outstanding entry held).1
      rcases (mem_toCancel ready entry.atom).mp now with ⟨-, ahead, -⟩ | ⟨-, -, -, reached, -⟩
      · omega
      · omega
    · intro atom earlier other later
      rcases List.mem_append.mp later with now | stays
      · rintro rfl
        have := (sound.canceled atom earlier).1
        rcases (mem_toCancel ready atom).mp now with ⟨-, ahead, -⟩ | ⟨entry, held, same, -⟩
        · omega
        · exact distinct.2.2 atom earlier atom (List.mem_map.mpr ⟨entry, held, same⟩) rfl
      · exact distinct.2.2 atom earlier other (kept.subset stays)
  · intro request member
    obtain ⟨held, stands, below⟩ := sound.launches request member
    refine ⟨List.mem_filter.mpr ⟨held, ?_⟩, stands, (fun nonempty => by cases nonempty)⟩
    rw [decide_eq_true_eq]
    exact below empty

theorem enter (sound : Sound scene position course) {rule : Rule} {stop : Nat}
    (stands : scene.shape.atom? position = some (.decider rule stop)) :
    Sound scene (position + 1) (course.enter position) := by
  have inside : position < scene.shape.size := by
    rw [← Shape.atom?_isSome_iff, stands]
    rfl
  refine ⟨inside, Nat.le_succ_of_le sound.frontier_le, fun nonempty => ?_, sound.ascending,
    sound.outstanding, sound.distinct, fun entry member => ?_, sound.canceled, sound.single,
    sound.ordered, sound.launches⟩
  · obtain ⟨frontier_le, stop_le⟩ := sound.pending_stop nonempty
    exact ⟨frontier_le, Nat.le_succ_of_le stop_le⟩
  · obtain ⟨below, valid⟩ := sound.continuations entry member
    exact ⟨Nat.lt_succ_of_lt below, valid⟩

theorem visit (sound : Sound scene position course) {leaf : Leaf}
    (stands : scene.shape.atom? position = some leaf.atom)
    (settled : course.pending.isEmpty = true) :
    Sound scene (position + 1) (course.visit scene position leaf).2 := by
  have inside : position < scene.shape.size := by
    rw [← Shape.atom?_isSome_iff, stands]
    rfl
  have action : (scene.shape.atom? position).any Atom.isAction = true := by
    rw [stands]
    cases leaf <;> rfl
  have frontier := sound.frontier_le
  obtain ⟨status, added, entry, request, board, seed, delivers, visited⟩ :=
    course.visit_eq scene position leaf
  rw [visited]
  refine ⟨inside, Nat.le_refl _, fun nonempty => ?_, ?_, ?_, sound.distinct, ?_, ?_, ?_, ?_, ?_⟩
  · simp only [settled] at nonempty
    cases nonempty
  · refine List.pairwise_append.mpr ⟨sound.ascending, ?_, ?_⟩
    · cases entry with
      | none => exact List.Pairwise.nil
      | some value => exact List.pairwise_singleton _ _
    · intro first member second later
      obtain ⟨value, -, rfl⟩ := List.mem_map.mp later
      exact Nat.lt_of_lt_of_le (sound.outstanding first member).1 frontier
  · intro other member
    rcases List.mem_append.mp member with earlier | now
    · obtain ⟨below, valid⟩ := sound.outstanding other earlier
      exact ⟨by simp only; omega, valid⟩
    · obtain ⟨value, held, rfl⟩ := List.mem_map.mp now
      have active := delivers.isActive_of_entry (Option.mem_toList.mp held)
      exact ⟨Nat.lt_succ_self _, active, action⟩
  · intro other member
    obtain ⟨below, valid⟩ := sound.continuations other member
    exact ⟨Nat.lt_succ_of_lt below, valid⟩
  · intro atom member
    obtain ⟨below, valid⟩ := sound.canceled atom member
    exact ⟨by simp only; omega, valid⟩
  · rw [List.map_append, ← List.append_assoc]
    refine List.nodup_append.mpr ⟨sound.single, ?_, ?_⟩
    · cases entry <;> simp
    · intro atom earlier other later
      have now : other = position := by
        obtain ⟨entry, member, rfl⟩ := List.mem_map.mp later
        obtain ⟨value, -, rfl⟩ := List.mem_map.mp member
        rfl
      have below : atom < course.frontier := by
        rcases List.mem_append.mp earlier with canceled | held
        · exact (sound.canceled atom canceled).1
        · obtain ⟨entry, member, rfl⟩ := List.mem_map.mp held
          exact (sound.outstanding entry member).1
      omega
  · refine List.pairwise_append.mpr ⟨sound.ordered, ?_, ?_⟩
    · cases request with
      | none => exact List.Pairwise.nil
      | some value => exact List.pairwise_singleton _ _
    · intro first member second later
      have below := (sound.outstanding _ (sound.launches first member).1).1
      have now := (delivers.launched_of_request (Option.mem_toList.mp later)).1
      simp only at below
      omega
  · intro launch member
    rcases List.mem_append.mp member with earlier | now
    · obtain ⟨held, valid⟩ := sound.launches launch earlier
      exact ⟨List.mem_append_left _ held, valid⟩
    · obtain ⟨own, rfl, rfl⟩ := delivers.launched_of_request (Option.mem_toList.mp now)
      rw [own]
      refine ⟨List.mem_append_right _ (by simp), stands, fun nonempty => ?_⟩
      simp only [settled] at nonempty
      cases nonempty

theorem pass (sound : Sound scene position course) {later : Nat} (forward : position ≤ later)
    (inside : later ≤ scene.shape.size) : Sound scene later course := by
  refine ⟨inside, Nat.le_trans sound.frontier_le forward, fun nonempty => ?_, sound.ascending,
    sound.outstanding, sound.distinct, fun entry member => ?_, sound.canceled, sound.single,
    sound.ordered, sound.launches⟩
  · obtain ⟨frontier_le, stop_le⟩ := sound.pending_stop nonempty
    exact ⟨frontier_le, Nat.le_trans stop_le forward⟩
  · obtain ⟨below, valid⟩ := sound.continuations entry member
    exact ⟨Nat.lt_of_lt_of_le below forward, valid⟩

theorem record (sound : Sound scene position course) {sequence stop child : Nat}
    (stands : scene.shape.atom? sequence = some (.decider .sequence stop))
    (passed : sequence < position)
    (unrecorded : ∀ entry ∈ course.continuations, entry.atom ≠ sequence) :
    Sound scene position (course.record sequence child) := by
  refine ⟨sound.inside, sound.frontier_le, sound.pending_stop, sound.ascending,
    sound.outstanding, ?_, fun entry member => ?_, sound.canceled, sound.single,
    sound.ordered, sound.launches⟩
  · change ((course.continuations ++ [Entry.mk sequence child]).map Entry.atom).Nodup
    rw [List.map_append, List.nodup_append]
    refine ⟨sound.distinct, List.nodup_singleton _, ?_⟩
    intro atom earlier other now
    obtain ⟨entry, member, rfl⟩ := List.mem_map.mp earlier
    obtain rfl := List.mem_singleton.mp now
    exact unrecorded entry member
  · rcases List.mem_append.mp member with earlier | now
    · exact sound.continuations entry earlier
    · obtain rfl := List.mem_singleton.mp now
      exact ⟨passed, by rw [stands]; rfl⟩

/-- A span that begins behind all launches is given up. -/
theorem abandon (sound : Sound scene position course) {start stop : Nat}
    (forward : position ≤ stop) (inside : stop ≤ scene.shape.size)
    (before : ∀ request ∈ course.launches, request.atom < start) :
    Sound scene stop (course.abandon ⟨start, stop⟩) := by
  have later := sound.pass forward inside
  rcases Nat.lt_or_ge start stop with nonempty | empty
  · have second : (Span.mk start stop).isEmpty = false :=
      (Span.isEmpty_eq_false_iff _).mpr nonempty
    have frontier := sound.frontier_le
    refine ⟨inside, later.frontier_le, fun _ => ?_, sound.ascending, sound.outstanding,
      sound.distinct, later.continuations, sound.canceled, sound.single, sound.ordered,
      fun request member => ?_⟩
    · by_cases first : course.pending.isEmpty = true
      · simp only [Course.abandon, Span.cover_isEmpty first second]
        omega
      · rw [Bool.not_eq_true] at first
        have stop_le := (sound.pending_stop first).2
        simp only [Course.abandon, Span.cover_nonempty first second]
        omega
    · obtain ⟨held, stands, below⟩ := sound.launches request member
      refine ⟨held, stands, fun _ => ?_⟩
      have lower := before request member
      by_cases first : course.pending.isEmpty = true
      · simp only [Course.abandon, Span.cover_isEmpty first second]
        exact lower
      · rw [Bool.not_eq_true] at first
        have := below first
        simp only [Course.abandon, Span.cover_nonempty first second]
        omega
  · rw [abandon_isEmpty empty]
    exact later

/-- To take back what was added leaves a sound course. -/
theorem takeBack (sound : Sound scene position course) {index : Nat} {entered : Course β}
    (grown : Grows index entered course) : Sound scene position (course.takeBack entered) := by
  obtain ⟨recorded, recorded_eq, -⟩ := grown.continuations
  obtain ⟨launched, launched_eq, -⟩ := grown.launches
  have distinct := sound.distinct
  have ordered := sound.ordered
  rw [recorded_eq, List.map_append] at distinct
  rw [launched_eq] at ordered
  refine ⟨sound.inside, sound.frontier_le, sound.pending_stop, sound.ascending,
    sound.outstanding, (List.nodup_append.mp distinct).1, fun entry member => ?_, sound.canceled,
    sound.single, (List.pairwise_append.mp ordered).1, fun request member => ?_⟩
  · apply sound.continuations entry
    rw [recorded_eq]
    exact List.mem_append_left _ member
  · apply sound.launches request
    rw [launched_eq]
    exact List.mem_append_left _ member

/-- Every move of a sound course leaves it sound. -/
theorem move (ready : scene.Ready) {quiet : Nat → Prop} {later : Nat} {after : Course β}
    (move : Move scene quiet position course later after) (sound : Sound scene position course) :
    Sound scene later after := by
  cases move with
  | drain => exact sound.drain ready
  | enter stands => exact sound.enter stands
  | visit stands settled => exact sound.visit stands settled
  | pass forward inside => exact sound.pass forward inside
  | record stands passed unrecorded => exact sound.record stands passed unrecorded
  | abandon forward inside =>
    exact sound.abandon forward inside fun request member => sound.launch_lt member
  | fail passed forward inside grown before =>
    exact (sound.takeBack grown).abandon forward inside before

theorem reaches (ready : scene.Ready) {quiet : Nat → Prop} {later : Nat} {after : Course β}
    (reaches : Reaches scene quiet position course later after)
    (sound : Sound scene position course) : Sound scene later after :=
  reaches.invariant (fun _ _ _ _ last sound => Sound.move ready last sound) sound

/-- What every move of a sound course preserves, a run of moves from a sound course preserves. -/
theorem invariant (sound : Sound scene position course) (ready : scene.Ready)
    {quiet : Nat → Prop} {holds : Nat → Course β → Prop}
    (step : ∀ position course later after, Move scene quiet position course later after →
      Sound scene position course → holds position course → holds later after)
    {later : Nat} {after : Course β} (reaches : Reaches scene quiet position course later after)
    (start : holds position course) : holds later after := by
  have both : Sound scene later after ∧ holds later after := by
    apply reaches.invariant _ ⟨sound, start⟩
    intro position course later after last kept
    exact ⟨Sound.move ready last kept.1, step _ _ _ _ last kept.1 kept.2⟩
  exact both.2

end Sound

/-- An action that was active has been dealt with once it is passed, or it is abandoned and the next
drain deals with it. -/
def Course.Settles (scene : Scene β) (atom position : Nat) (dealt : Prop) (course : Course β) :
    Prop :=
  scene.wasActive atom = true → atom < position →
    dealt ∨ course.frontier ≤ atom ∧ course.pending.contains atom = true

namespace Course.Settles
variable {scene : Scene β} {atom position : Nat} {dealt : Prop} {course : Course β}

theorem opening (scene : Scene β) (atom : Nat) (dealt : Prop) (course : Course β) :
    course.Settles scene atom 0 dealt := by
  intro _ before
  cases before

/-- Where nothing is pending, what is passed has been dealt with. -/
theorem dealt_of_isEmpty (settles : course.Settles scene atom position dealt)
    (empty : course.pending.isEmpty = true) (active : scene.wasActive atom = true)
    (before : atom < position) : dealt := by
  rcases settles active before with done | ⟨-, covered⟩
  · exact done
  · have within := (Span.contains_iff _ _).mp covered
    have := (Span.isEmpty_iff _).mp empty
    omega

/-- Nodes may be passed where nothing was active. -/
theorem pass (settles : course.Settles scene atom position dealt) {later : Nat}
    (skipped : position ≤ atom → atom < later → scene.wasActive atom = false) :
    course.Settles scene atom later dealt := by
  intro active before
  rcases Nat.lt_or_ge atom position with earlier | passed
  · exact settles active earlier
  · rw [skipped passed before] at active
    cases active

/-- What is abandoned is settled up to its end. -/
theorem abandon (settles : course.Settles scene atom position dealt) {start stop : Nat}
    (frontier : course.frontier ≤ position) (from_ : start ≤ position) :
    (course.abandon ⟨start, stop⟩).Settles scene atom stop dealt := by
  intro active before
  rcases Nat.lt_or_ge atom position with earlier | now
  · rcases settles active earlier with done | ⟨ahead, covered⟩
    · exact Or.inl done
    · exact Or.inr ⟨ahead, Span.contains_cover (Or.inl covered)⟩
  · refine Or.inr ⟨Nat.le_trans frontier now, Span.contains_cover (Or.inr ?_)⟩
    rw [Span.contains_iff]
    exact ⟨Nat.le_trans from_ now, before⟩

end Course.Settles

end BehaviorTree
