import BehaviorTree.Machine.Frame
import BehaviorTree.Proofs.Ordered.Linear
import BehaviorTree.Proofs.Storage.Outcomes
import BehaviorTree.Proofs.Tree.Basic
import Mathlib.Data.List.Triplewise

namespace BehaviorTree
open Checked

namespace Ordered
variable {α σ : Type}

/-- No key lies between a larger one and a smaller one that stand in front of it in this order. -/
def AvoidsDips (keys : List Nat) : Prop :=
  keys.Triplewise fun first dip last => ¬(dip < last ∧ last < first)

/-- The keys that a stack of a given size puts into order: they are different, none lies between two
in front of it that fall, and the size is enough for the minima from any position on. -/
structure StackSortable (keys : List Nat) (size : Nat) : Prop where
  distinct : keys.Nodup
  avoids : AvoidsDips keys
  room : ∀ position < keys.length, (minima (keys.drop position)).length ≤ size

theorem AvoidsDips.sublist {keys others : List Nat} (avoids : AvoidsDips keys)
    (fewer : others.Sublist keys) : AvoidsDips others := by
  induction fewer with
  | slnil => exact .nil
  | cons key _ ih => exact ih (List.triplewise_cons.mp avoids).2
  | cons_cons key rest ih =>
    obtain ⟨pairs, inner⟩ := List.triplewise_cons.mp avoids
    exact List.triplewise_cons.mpr ⟨pairs.sublist rest, ih inner⟩

/-- Different keys without dips are sortable. -/
theorem AvoidsDips.sortable {keys : List Nat} (avoids : AvoidsDips keys) (distinct : keys.Nodup) :
    Sortable keys := by
  intro first dip last within less
  have avoided := List.triplewise_triple.mp (avoids.sublist within)
  have different : first ≠ last := by
    have nodup := distinct.sublist within
    rintro rfl
    simp at nodup
  omega

variable [Keyed α] [Parking α σ]

/-- A linear scan writes all that it has in hand in front of its output, and what it comes to
ascends. -/
theorem scan_linear [LawfulParking α σ] {sort : Array α → Array α} {position count : Nat}
    {slots : Array σ} {output : Output α} {result : Reordered α σ} (inside : count ≤ slots.size)
    (write : output.write = position + count) (valid : output.Valid)
    (scanned : scan sort position slots count output = .ok result)
    (linear : result.linear = true) :
    Ascending result.entries.toList ∧ ∃ front, result.entries.toList = front ++ output.written ∧
      front.Perm (output.entries.toList.take position ++ held slots count) := by
  induction position generalizing count slots output with
  | zero =>
    obtain ⟨after, released, full, start, whole⟩ := release_all inside (by omega) valid
    simp only [scan, released, ok_bind] at scanned
    obtain ⟨_, -, ended⟩ := bind_eq_ok.mp scanned
    obtain rfl := Except.ok.inj ended
    have ascending : after.ascending = true := linear
    have ordered := full.ordered ascending
    rw [Output.written, start, List.drop_zero] at ordered
    simp only [ascending, if_true]
    exact ⟨ordered, _, whole, by simp⟩
  | succ position ih =>
    have within := valid.within
    have reads : position < output.entries.size := by omega
    obtain ⟨left, after, released, fewer, extended, -⟩ :=
      release_extends (fun above => decide (key output.entries[position] < above)) inside
        (by omega) valid
    have writes := extended.write
    rw [List.length_drop, length_held inside] at writes
    simp only [scan, readAt_eq_ok reads, ok_bind, released] at scanned
    split at scanned
    · -- Where the slots do not do, the scan is not linear.
      obtain ⟨_, -, rest⟩ := bind_eq_ok.mp scanned
      obtain ⟨_, -, ended⟩ := bind_eq_ok.mp rest
      obtain rfl := Except.ok.inj ended
      cases linear
    · next enough =>
      have room : left < slots.size := by omega
      simp only [readAt_eq_ok room, writeAt_eq_ok room, ok_bind] at scanned
      obtain ⟨ascending, front, parts, perm⟩ := ih (by simpa using Nat.succ_le_of_lt room)
        (by omega) extended.valid scanned
      refine ⟨ascending, front ++ (held slots count).drop left, ?_, ?_⟩
      · rw [parts, extended.written, List.append_assoc]
      · have unread : after.entries.toList.take position = output.entries.toList.take position :=
          extended.unread position (by omega)
        have next : output.entries.toList.take (position + 1) =
            output.entries.toList.take position ++ [output.entries[position]] := by
          simp [List.take_add_one, reads]
        rw [held_parkIn room, unread] at perm
        refine (perm.append_right _).trans ?_
        conv_rhs => rw [next, ← held_append_drop slots fewer]
        simp only [List.append_assoc, List.cons_append, List.nil_append]
        exact List.Perm.append_left _ List.perm_middle

section
variable {keys : List Nat} {position : Nat} {slots : Array σ} {count : Nat} {output : Output α}
  [LawfulParking α σ] {sort : Array α → Array α} {result : Reordered α σ}

/-- If a scan goes on linearly, all that is left lies below what has been written, and what has been
read is on the stack or has been written. -/
theorem Stacked.below_of_linear (stacked : Stacked keys position slots count output)
    (scanned : scan sort position slots count output = .ok result)
    (linear : result.linear = true) (perm : (result.entries.toList.map key).Perm keys) :
    (∀ other ∈ output.written,
      ∀ low ∈ keys.take position ++ minima (keys.drop position), low < key other) ∧
    (keys.drop position).Perm (minima (keys.drop position) ++ output.written.map key) := by
  obtain ⟨ascending, front, parts, left⟩ :=
    scan_linear stacked.inside stacked.write stacked.valid scanned linear
  have front_keys : (front.map key).Perm (keys.take position ++ minima (keys.drop position)) := by
    refine (left.map key).trans ?_
    rw [List.map_append, stacked.unread, stacked.stack]
    exact (List.reverse_perm _).append_left _
  constructor
  · intro other written low member
    obtain ⟨entry, present, rfl⟩ := List.mem_map.mp (front_keys.mem_iff.mpr member)
    rw [parts] at ascending
    exact (List.pairwise_append.mp ascending).2.2 entry present other written
  · have whole : (keys.take position ++ keys.drop position).Perm
        (keys.take position ++ (minima (keys.drop position) ++ output.written.map key)) := by
      rw [List.take_append_drop, ← List.append_assoc]
      refine perm.symm.trans ?_
      rw [parts, List.map_append]
      exact front_keys.append_right _
    exact (List.perm_append_left_iff _).mp whole

/-- If a scan goes on linearly, there are slots for the minima from each unread position on, and
whatever is larger than the key there and read before is larger than all keys in front of it. -/
theorem Linearly.conforms (linearly : Linearly keys position slots count output)
    (distinct : keys.Nodup) (within : position ≤ keys.length)
    (scanned : Ordered.scan sort position slots count output = .ok result)
    (linear : result.linear = true) (perm : (result.entries.toList.map key).Perm keys)
    {earlier : Nat} (inside : earlier < keys.length) (before : earlier < position) :
    (minima (keys.drop earlier)).length ≤ slots.size ∧
      ∀ low ∈ keys.take earlier, ∀ high ∈ keys.drop earlier, keys[earlier] < high → low < high := by
  induction position generalizing slots count output with
  | zero => exact absurd before (Nat.not_lt_zero _)
  | succ position ih =>
    obtain ⟨current, left, after, read, here, released, most, size, ascending, -, -, stacked⟩ :=
      linearly.released distinct within
    simp only [Ordered.scan, read, ok_bind, released] at scanned
    split at scanned
    · obtain ⟨_, -, rest⟩ := bind_eq_ok.mp scanned
      obtain ⟨_, -, ended⟩ := bind_eq_ok.mp rest
      obtain rfl := Except.ok.inj ended
      cases linear
    · next enough =>
      have free : left < slots.size := by omega
      simp only [readAt_eq_ok free, writeAt_eq_ok free, ok_bind] at scanned
      obtain ⟨below, accounted⟩ := (stacked free).below_of_linear scanned linear perm
      rcases Nat.lt_or_eq_of_le (Nat.le_of_lt_succ before) with sooner | rfl
      · have next : Linearly keys position _ _ after := ⟨stacked free, ascending, below⟩
        simpa using ih next (Nat.le_of_lt within) scanned sooner
      · refine ⟨by omega, fun low unread high member larger => ?_⟩
        have opened : keys.drop earlier = keys[earlier] :: keys.drop (earlier + 1) :=
          List.drop_eq_getElem_cons within
        rcases List.mem_append.mp (accounted.mem_iff.mp member) with minimal | written
        · -- No minimum lies above the first key.
          rw [opened, minima] at minimal
          rcases List.mem_cons.mp minimal with rfl | minimal
          · exact absurd larger (Nat.lt_irrefl _)
          · have := of_decide_eq_true (List.mem_filter.mp minimal).2
            omega
        · obtain ⟨other, present, rfl⟩ := List.mem_map.mp written
          exact below other present low (List.mem_append_left _ unread)

end

/-- A stack that has room from each position on has room for any rest of the keys. -/
theorem StackSortable.room_suffix {keys rest : List Nat} {size : Nat}
    (sortable : StackSortable keys size) (suffix_ : rest <:+ keys) :
    (minima rest).length ≤ size := by
  rw [List.suffix_iff_eq_drop.mp suffix_]
  by_cases inside : keys.length - rest.length < keys.length
  · exact sortable.room _ inside
  · rw [List.drop_eq_nil_of_le (Nat.not_lt.mp inside)]
    exact Nat.zero_le _

/-- A reorder is linear exactly if a stack as large as the slots puts the keys into order. -/
theorem reorder_stackSortable [LawfulParking α σ] (entries : Array α) (slots : Array σ) :
    ∃ result, reorder entries slots = .ok result ∧
      (result.linear = true ↔ StackSortable (entries.toList.map key) slots.size) := by
  obtain ⟨result, reordered, sorts⟩ := reorder_sorts entries slots
  refine ⟨result, reordered, fun linear => ?_, fun sortable => ?_⟩
  · have start := Linearly.start entries slots
    obtain ⟨ascending, -⟩ := scan_linear start.inside start.write start.valid reordered linear
    have perm := sorts.perm.map key
    have distinct : (entries.toList.map key).Nodup :=
      perm.nodup_iff.mp (List.pairwise_map.mpr (ascending.imp Nat.ne_of_lt))
    have conforms {position : Nat} (inside : position < (entries.toList.map key).length) :=
      start.conforms distinct (by simp) reordered linear perm inside (by simpa using inside)
    refine ⟨distinct, ?_, fun position inside => (conforms inside).1⟩
    generalize entries.toList.map key = keys at conforms
    rw [AvoidsDips, List.triplewise_iff_getElem]
    rintro first dip last earlier later inside ⟨less, more⟩
    have unread : keys[first] ∈ keys.take dip :=
      List.mem_take_iff_getElem.mpr ⟨first, by omega, rfl⟩
    have reads : keys[last] ∈ keys.drop dip :=
      List.mem_drop_iff_getElem.mpr ⟨last - dip, by omega, by congr 1; omega⟩
    have := (conforms (Nat.lt_trans later inside)).2 _ unread _ reads less
    omega
  · obtain ⟨same, again, linear, -⟩ := reorder_linear sortable.distinct
      (sortable.avoids.sortable sortable.distinct) (fun _ => sortable.room_suffix)
    obtain rfl := Except.ok.inj (again.symm.trans reordered)
    exact linear

end Ordered

open Ordered

mutual

/-- The deciders of a tree that are kept, by the indices of a listing, each behind those within. -/
def Tree.emission (keep : Nat → Bool) (index : Nat) : Tree → List Nat
  | .action _ => []
  | .decider _ children =>
      Forest.emission keep (index + 1) children ++ if keep index then [index] else []

/-- The deciders of a forest that are kept, one tree after the other. -/
def Forest.emission (keep : Nat → Bool) (index : Nat) : List Tree → List Nat
  | [] => []
  | tree :: rest => tree.emission keep index ++ Forest.emission keep (index + tree.size) rest

end

mutual

/-- The largest number of deciders on a path from the root that are kept. -/
def Tree.emissionDepth (keep : Nat → Bool) (index : Nat) : Tree → Nat
  | .action _ => 0
  | .decider _ children =>
      Forest.emissionDepth keep (index + 1) children + if keep index then 1 else 0

/-- The largest such number of a tree of the forest. -/
def Forest.emissionDepth (keep : Nat → Bool) (index : Nat) : List Tree → Nat
  | [] => 0
  | tree :: rest =>
      max (tree.emissionDepth keep index) (Forest.emissionDepth keep (index + tree.size) rest)

end

mutual

/-- What a tree emits is in post-order, nested as deep as what is kept on a path. -/
theorem Tree.postOrder_emission (keep : Nat → Bool) (index : Nat) : ∀ tree : Tree,
    PostOrder index (index + tree.size) (tree.emissionDepth keep index) (tree.emission keep index)
  | .action _ => .nil
  | .decider rule children => by
      have inner := Forest.postOrder_emission keep (index + 1) children
      have stop : index + 1 + Forest.size children = index + (Tree.decider rule children).size := by
        rw [Tree.size, Nat.add_assoc]
      rw [stop] at inner
      rw [Tree.emission, Tree.emissionDepth]
      by_cases kept : keep index = true
      · rw [if_pos kept, if_pos kept]
        exact inner.close (by rw [← stop]; omega)
      · rw [if_neg kept, if_neg kept, List.append_nil]
        exact inner.mono (Nat.le_succ _) (Nat.le_refl _) (Nat.le_refl _)

theorem Forest.postOrder_emission (keep : Nat → Bool) (index : Nat) : ∀ forest : List Tree,
    PostOrder index (index + Forest.size forest) (Forest.emissionDepth keep index forest)
      (Forest.emission keep index forest)
  | [] => .nil
  | tree :: rest => by
      have first := Tree.postOrder_emission keep index tree
      have others := Forest.postOrder_emission keep (index + tree.size) rest
      rw [Nat.add_assoc] at others
      exact (first.mono (Nat.le_refl _) (Nat.le_refl _) (Nat.le_max_left _ _)).append
        (others.mono (Nat.le_refl _) (Nat.le_refl _) (Nat.le_max_right _ _))
        (Nat.le_add_right _ _) (Nat.add_le_add_left (Nat.le_add_right _ _) _)

end

namespace Ordered

/-- A reorder is linear exactly if a stack as large as the slots puts the keys into order. So it is
whenever the keys are those that a tree emits of its deciders, whichever are kept, and there is a
slot for each that is kept on a path. -/
theorem reorder_linear_iff {α σ : Type} [Keyed α] [Parking α σ] [LawfulParking α σ]
    (entries : Array α) (slots : Array σ) :
    ∃ result, reorder entries slots = .ok result ∧
      (result.linear = true ↔ StackSortable (entries.toList.map key) slots.size) ∧
      ∀ (tree : Tree) (keep : Nat → Bool) (index : Nat),
        entries.toList.map key = tree.emission keep index →
        tree.emissionDepth keep index ≤ slots.size → result.linear = true := by
  obtain ⟨result, reordered, linear_iff⟩ := reorder_stackSortable entries slots
  refine ⟨result, reordered, linear_iff, fun tree keep index emitted enough => ?_⟩
  have posts := tree.postOrder_emission keep index
  rw [← emitted] at posts
  obtain ⟨same, again, linear, -⟩ := reorder_linear posts.distinct posts.sortable
    fun rest suffix_ => Nat.le_trans (posts.nesting rest suffix_) enough
  obtain rfl := Except.ok.inj (again.symm.trans reordered)
  exact linear

namespace Sample

/-- A sequence of two sequences, of which the first one has two more. -/
def nested : Tree :=
  .decider .sequence [.decider .sequence [.decider .sequence [], .decider .sequence []],
    .decider .sequence []]

/-- What the nested sequences emit. -/
def closing : Array (Entry Nat) := #[⟨2, 3⟩, ⟨3, 4⟩, ⟨1, 2⟩, ⟨4, 5⟩, ⟨0, 1⟩]

end Sample

/-- Three frames are enough for what nested sequences emit, but two are not. -/
theorem reorder_linear_iff_sample : LawfulParking (Entry Nat) Frame ∧
    (∃ result, reorder Sample.closing (Array.replicate 3 Frame.blank) = .ok result ∧
      result.linear = true) ∧
    ∃ result, reorder Sample.closing (Array.replicate 2 Frame.blank) = .ok result ∧
      result.linear = false := by
  refine ⟨inferInstance, ?_, ?_⟩
  · obtain ⟨result, reordered, -, emitted⟩ :=
      reorder_linear_iff Sample.closing (Array.replicate 3 Frame.blank)
    exact ⟨result, reordered, emitted Sample.nested (fun _ => true) 0 (by decide) (by decide)⟩
  · obtain ⟨result, reordered, linear_iff, -⟩ :=
      reorder_linear_iff Sample.closing (Array.replicate 2 Frame.blank)
    refine ⟨result, reordered, Bool.eq_false_iff.mpr fun linear => ?_⟩
    have room := (linear_iff.mp linear).room 0 (by decide)
    revert room
    decide

end Ordered

end BehaviorTree
