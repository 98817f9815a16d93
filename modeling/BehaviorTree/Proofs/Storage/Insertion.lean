import BehaviorTree.Actor
import BehaviorTree.Proofs.Ordered.Search

namespace BehaviorTree
open Ordered

namespace SparseStates
variable {ν : Type}

/-- All values of the storage, in use or stale. -/
def storage (states : SparseStates ν) : Array (Entry ν) := states.entries ++ states.stale

/-- The storage is changed, with as many values in use as before. -/
def onStorage (change : Array (Entry ν) → Array (Entry ν)) (states : SparseStates ν) :
    SparseStates ν :=
  let storage := change states.storage
  ⟨storage.take states.count, storage.drop states.count⟩

/-- The entries from a position on are copied one place further, over the first stale value. -/
def moveUp (position : Nat) (states : SparseStates ν) : SparseStates ν :=
  states.onStorage fun storage =>
    storage.take (position + 1) ++ states.entries.drop position ++ storage.drop (states.count + 1)

/-- An entry is written over a place of the storage. -/
def overwriteAt (position : Nat) (entry : Entry ν) (states : SparseStates ν) : SparseStates ν :=
  states.onStorage fun storage => storage.setIfInBounds position entry

/-- One more value of the storage is in use. -/
def extend (states : SparseStates ν) : SparseStates ν :=
  ⟨states.entries ++ states.stale.take 1, states.stale.drop 1⟩

/-- States are given by their storage and the number of values in use. -/
theorem eq_of_lists {states other : SparseStates ν}
    (entries : states.entries.toList = other.entries.toList)
    (stale : states.stale.toList = other.stale.toList) : states = other := by
  cases states
  cases other
  simp only [mk.injEq]
  exact ⟨Array.ext' entries, Array.ext' stale⟩

theorem toList_storage (states : SparseStates ν) :
    states.storage.toList = states.entries.toList ++ states.stale.toList := Array.toList_append

theorem storage_onStorage (change : Array (Entry ν) → Array (Entry ν)) (states : SparseStates ν) :
    (states.onStorage change).storage = change states.storage := by
  apply Array.ext'
  simp only [storage, onStorage, Array.toList_append, toList_arrayTake, toList_arrayDrop,
    List.take_append_drop]

theorem count_onStorage {change : Array (Entry ν) → Array (Entry ν)} {states : SparseStates ν}
    (enough : states.count ≤ (change states.storage).size) :
    (states.onStorage change).count = states.count := by
  simp [count, onStorage] at enough ⊢
  omega

theorem extend_onStorage (change : Array (Entry ν) → Array (Entry ν)) (states : SparseStates ν) :
    (states.onStorage change).extend =
      ⟨(change states.storage).take (states.count + 1),
        (change states.storage).drop (states.count + 1)⟩ := by
  apply eq_of_lists
  · simp only [extend, onStorage, Array.toList_append, toList_arrayTake, toList_arrayDrop,
      List.take_add]
  · simp only [extend, onStorage, toList_arrayDrop, List.drop_drop]

theorem overwriteAt_entry {position : Nat} {states : SparseStates ν}
    (inside : position < states.entries.size) (entry : Entry ν) :
    states.overwriteAt position entry =
      { states with entries := states.entries.setIfInBounds position entry } := by
  have written : (states.storage.setIfInBounds position entry).toList =
      (states.entries.setIfInBounds position entry).toList ++ states.stale.toList := by
    have before : position < states.entries.toList.length := by simpa using inside
    rw [Array.toList_setIfInBounds, toList_storage, List.set_append_left _ _ before,
      Array.toList_setIfInBounds]
  have count : (states.entries.setIfInBounds position entry).toList.length = states.count := by
    simp [SparseStates.count]
  apply eq_of_lists
  · rw [overwriteAt, onStorage, toList_arrayTake, written, ← count, List.take_left]
  · rw [overwriteAt, onStorage, toList_arrayDrop, written, ← count, List.drop_left]

theorem insertIdx_length (lower upper : List (Entry ν)) (entry : Entry ν) :
    (lower ++ upper).insertIdx lower.length entry = lower ++ entry :: upper := by
  induction lower with
  | nil => rfl
  | cons first lower ih =>
    rw [List.cons_append, List.length_cons, List.insertIdx_succ_cons, ih, List.cons_append]

/-- Room for one more value is made by a move, and the value is written into the gap: this is an
insertion. -/
theorem insert_eq {position : Nat} {states : SparseStates ν}
    (inside : position ≤ states.entries.size) (room : states.count < states.capacity)
    (entry : Entry ν) :
    ((states.moveUp position).overwriteAt position entry).extend =
      { entries := states.entries.insertIdxIfInBounds position entry
        stale := states.stale.drop 1 } := by
  obtain ⟨lower, upper, parts, here⟩ : ∃ lower upper : List (Entry ν),
      states.entries.toList = lower ++ upper ∧ lower.length = position := by
    refine ⟨_, _, (List.take_append_drop position _).symm, ?_⟩
    rw [List.length_take, Array.length_toList, Nat.min_eq_left inside]
  obtain ⟨first, rest, spare⟩ : ∃ first rest, states.stale.toList = first :: rest := by
    apply List.exists_cons_of_ne_nil
    rintro none
    have empty : states.stale.size = 0 := by rw [← Array.length_toList, none, List.length_nil]
    rw [count, capacity, empty, Nat.add_zero] at room
    exact Nat.lt_irrefl _ room
  have used : states.count = lower.length + upper.length := by
    rw [count, ← Array.length_toList, parts, List.length_append]
  have stored : states.storage.toList = lower ++ (upper ++ first :: rest) := by
    rw [toList_storage, parts, spare, List.append_assoc]
  -- The first value behind the gap is there twice after the move, until it is written over.
  obtain ⟨twice, gap⟩ : ∃ twice, (upper ++ first :: rest).take 1 = [twice] := by
    cases upper <;> exact ⟨_, rfl⟩
  have moved : (states.moveUp position).storage.toList = lower ++ twice :: (upper ++ rest) := by
    rw [moveUp, storage_onStorage]
    simp only [Array.toList_append, toList_arrayTake, toList_arrayDrop, stored, parts, ← here,
      List.take_length_add_append, gap, List.drop_left]
    rw [used, show lower.length + upper.length + 1 = lower.length + (upper.length + 1) from rfl,
      List.drop_length_add_append, List.drop_length_add_append]
    simp
  have count_moved : (states.moveUp position).count = states.count := by
    apply count_onStorage
    have size := congrArg List.length moved
    rw [Array.length_toList, moveUp, storage_onStorage] at size
    rw [size, used, List.length_append, List.length_cons, List.length_append]
    omega
  have written : ((states.moveUp position).storage.setIfInBounds position entry).toList =
      (lower ++ entry :: upper) ++ rest := by
    rw [Array.toList_setIfInBounds, moved, ← here, List.set_append_right _ _ (Nat.le_refl _)]
    simp
  have length : (lower ++ entry :: upper).length = states.count + 1 := by
    rw [List.length_append, List.length_cons, used, Nat.add_assoc]
  rw [overwriteAt, extend_onStorage, count_moved]
  apply eq_of_lists
  · rw [toList_arrayTake, written, ← length, List.take_left, Array.insertIdxIfInBounds,
      dif_pos inside, Array.toList_insertIdx, parts, ← here, insertIdx_length]
  · rw [toList_arrayDrop, written, ← length, List.drop_left, toList_arrayDrop, spare]
    rfl

end SparseStates
end BehaviorTree
