import BehaviorTree.Proofs.Ordered.Cursor

namespace BehaviorTree
open Ordered

section Copies
variable {α γ : Type}

/-- The values from a start up to a stop are copied to a target. Source and target may overlap: what
is copied is what the source held before. -/
def copyWithin (start stop target : Nat) (storage : Array α) : Array α :=
  storage.mapIdx fun place value =>
    if target ≤ place ∧ place - target < stop - start then
      storage[start + (place - target)]?.getD value
    else value

@[simp] theorem size_copyWithin (start stop target : Nat) (storage : Array α) :
    (copyWithin start stop target storage).size = storage.size := by
  simp [copyWithin]

/-- A copy of whole rows copies each of their columns. -/
theorem map_copyWithin (column : α → γ) (start stop target : Nat) (storage : Array α) :
    (copyWithin start stop target storage).map column =
      copyWithin start stop target (storage.map column) := by
  apply Array.ext_getElem?
  intro place
  simp only [copyWithin, Array.getElem?_map, Array.getElem?_mapIdx, Option.map_map]
  congr 1
  funext value
  simp only [Function.comp_apply]
  split
  · cases storage[start + (place - target)]? <;> rfl
  · rfl

/-- A copy takes the place of as many values behind the target. -/
theorem toList_copyWithin {start stop target : Nat} {storage : Array α}
    (source : stop ≤ storage.size) (room : target + (stop - start) ≤ storage.size) :
    (copyWithin start stop target storage).toList =
      storage.toList.take target ++ (storage.toList.drop start).take (stop - start) ++
        storage.toList.drop (target + (stop - start)) := by
  apply List.ext_getElem?
  intro place
  have copied : (copyWithin start stop target storage).toList[place]? =
      storage.toList[place]?.map fun value =>
        if target ≤ place ∧ place - target < stop - start then
          storage.toList[start + (place - target)]?.getD value
        else value := by
    simp [copyWithin]
  have front : (storage.toList.take target).length = target := by
    rw [List.length_take, Array.length_toList]
    omega
  have middle : ((storage.toList.drop start).take (stop - start)).length = stop - start := by
    rw [List.length_take, List.length_drop, Array.length_toList]
    omega
  rw [copied, List.append_assoc]
  rcases Nat.lt_or_ge place target with before | reached
  · rw [List.getElem?_append_left (by omega), List.getElem?_take_of_lt before]
    simp [Nat.not_le.mpr before]
  rw [List.getElem?_append_right (by omega), front]
  rcases Nat.lt_or_ge (place - target) (stop - start) with within | behind
  · have held : place < storage.toList.length := by
      rw [Array.length_toList]
      omega
    have source : start + (place - target) < storage.toList.length := by
      rw [Array.length_toList]
      omega
    rw [List.getElem?_append_left (by omega), List.getElem?_take_of_lt within, List.getElem?_drop,
      List.getElem?_eq_getElem held, List.getElem?_eq_getElem source]
    simp [reached, within]
  · rw [List.getElem?_append_right (by omega), middle, List.getElem?_drop]
    have same : target + (stop - start) + (place - target - (stop - start)) = place := by omega
    simp [same, Nat.not_lt.mpr behind]

end Copies

/-- The storage of a finite map in two columns, the entries in use in front. -/
structure Columns (ν : Type) where
  atoms : Array Nat
  values : Array ν
  count : Nat
  aligned : atoms.size = values.size
  within : count ≤ values.size

namespace Columns
variable {ν : Type}

/-- The value that belongs to an atom stands at the place of the atom. -/
def find? (columns : Columns ν) (atom : Nat) : Option ν :=
  match searchKey (columns.atoms.take columns.count) atom with
  | .found position => columns.values[position]?
  | .missing _ => none

/-- The value of an atom is written over the old one. Else the places behind it move up in both
columns, if one more is left. -/
def merge? (columns : Columns ν) (atom : Nat) (value : ν) : Option (Columns ν) :=
  match searchKey (columns.atoms.take columns.count) atom with
  | .found position =>
      some { columns with
        values := columns.values.setIfInBounds position value
        aligned := by simp [columns.aligned]
        within := by simp [columns.within] }
  | .missing position =>
      if room : columns.count < columns.values.size then
        some {
          atoms := (copyWithin position columns.count (position + 1) columns.atoms).setIfInBounds
            position atom
          values := (copyWithin position columns.count (position + 1) columns.values).setIfInBounds
            position value
          count := columns.count + 1
          aligned := by simp [columns.aligned]
          within := by
            rw [Array.size_setIfInBounds, size_copyWithin]
            exact room }
      else none

/-- The places behind the one of an atom move down in both columns, over its own. -/
def remove? (columns : Columns ν) (atom : Nat) : Option (Columns ν) :=
  match searchKey (columns.atoms.take columns.count) atom with
  | .found position =>
      some {
        atoms := copyWithin (position + 1) columns.count position columns.atoms
        values := copyWithin (position + 1) columns.count position columns.values
        count := columns.count - 1
        aligned := by simp [columns.aligned]
        within := by
          have := columns.within
          simp
          omega }
  | .missing _ => none

end Columns

namespace SparseStates
variable {ν : Type}

/-- The columns in which sparse states are stored. -/
def columns (states : SparseStates ν) : Columns ν where
  atoms := states.storage.map Entry.atom
  values := states.storage.map Entry.value
  count := states.count
  aligned := by simp
  within := by simp [storage, count]

/-- The columns see only the storage and the number of places in use. -/
theorem columns_eq {states : SparseStates ν} {columns : Columns ν}
    (atoms : states.storage.map Entry.atom = columns.atoms)
    (values : states.storage.map Entry.value = columns.values)
    (count : states.count = columns.count) : states.columns = columns := by
  obtain ⟨_, _, _, _, _⟩ := columns
  obtain rfl := atoms
  obtain rfl := values
  obtain rfl := count
  rfl

theorem take_storage (states : SparseStates ν) :
    states.storage.take states.count = states.entries := by
  apply Array.ext'
  rw [toList_arrayTake, toList_storage, count, ← Array.length_toList, List.take_left]

/-- A search of the column of the atoms is a search of the entries. -/
theorem searchKey_columns (states : SparseStates ν) (atom : Nat) :
    searchKey (states.columns.atoms.take states.columns.count) atom =
      searchKey states.entries atom := by
  have column : states.columns.atoms.take states.columns.count =
      states.entries.map Entry.atom := by
    conv_rhs => rw [← states.take_storage]
    apply Array.ext'
    simp [columns]
  rw [column]
  have kept (entry : Entry ν) : key entry.atom = key entry := rfl
  exact searchKey_map kept states.entries atom

/-- What is found in the columns is what is found in the entries. -/
theorem columns_find? (states : SparseStates ν) (atom : Nat) :
    states.columns.find? atom = states.find? atom := by
  unfold Columns.find? find?
  rw [searchKey_columns]
  cases place : searchKey states.entries atom with
  | missing position => rfl
  | found position =>
    have inside := search_found_lt place
    have within : position < (states.entries.map Entry.value).size := by simpa using inside
    simp only [columns, storage, Array.map_append, Array.getElem?_append_left within,
      Array.getElem?_map]

/-- The move that makes room is a copy by one place to the back. -/
theorem storage_moveUp {position : Nat} {states : SparseStates ν}
    (inside : position ≤ states.entries.size) (room : states.count < states.capacity) :
    (states.moveUp position).storage =
      copyWithin position states.count (position + 1) states.storage := by
  have size : states.storage.size = states.capacity := by simp [storage, capacity]
  have count : states.entries.toList.length = states.count := Array.length_toList
  have inside : position ≤ states.count := inside
  have stop : position + 1 + (states.count - position) = states.count + 1 := by omega
  have behind : (states.storage.toList.drop position).take (states.count - position) =
      states.entries.toList.drop position := by
    rw [toList_storage, List.drop_append_of_le_length (count ▸ inside),
      List.take_left' (by rw [List.length_drop, count])]
  apply Array.ext'
  rw [moveUp, storage_onStorage, toList_copyWithin (by omega) (by omega), behind, stop]
  simp [List.take_of_length_le]

/-- A removal is a copy by one place to the front, after which one place less is in use. -/
theorem storage_erase {position : Nat} {states : SparseStates ν}
    (inside : position < states.entries.size) :
    states.entries.eraseIdxIfInBounds position ++
        (states.entries.drop (states.count - 1) ++ states.stale) =
      copyWithin (position + 1) states.count position states.storage := by
  have size : states.count ≤ states.storage.size := by simp [storage, SparseStates.count]
  have count : states.entries.toList.length = states.count := Array.length_toList
  have inside : position < states.count := inside
  have stop : position + (states.count - (position + 1)) = states.count - 1 := by omega
  have behind : (states.storage.toList.drop (position + 1)).take (states.count - (position + 1)) =
      states.entries.toList.drop (position + 1) := by
    rw [toList_storage, List.drop_append_of_le_length (count ▸ inside),
      List.take_left' (by rw [List.length_drop, count])]
  apply Array.ext'
  rw [toList_copyWithin size (by omega), behind, stop, Array.toList_append, Array.toList_append,
    toList_arrayDrop, Array.toList_eraseIdxIfInBounds, List.eraseIdx_eq_take_drop_succ,
    toList_storage, List.take_append_of_le_length (by omega),
    List.drop_append_of_le_length (by omega)]

theorem storage_overwriteAt (position : Nat) (entry : Entry ν) (states : SparseStates ν) :
    (states.overwriteAt position entry).storage = states.storage.setIfInBounds position entry :=
  storage_onStorage _ states

theorem storage_extend (states : SparseStates ν) : states.extend.storage = states.storage := by
  apply Array.ext'
  simp only [toList_storage, extend, Array.toList_append, toList_arrayTake, toList_arrayDrop,
    List.append_assoc, List.take_append_drop]

/-- An atom that is written over an equal one changes nothing in the column of the atoms. -/
theorem atoms_overwriteAt {position : Nat} {states : SparseStates ν}
    (inside : position < states.entries.size) (entry : Entry ν)
    (same : states.entries[position].atom = entry.atom) :
    (states.storage.setIfInBounds position entry).map Entry.atom =
      states.storage.map Entry.atom := by
  have stored : position < states.storage.size := by
    simp only [storage, Array.size_append]
    omega
  have held : states.storage[position] = states.entries[position] := by
    simp [storage, Array.getElem_append_left inside]
  apply Array.ext_getElem?
  intro place
  simp only [Array.getElem?_map, Array.getElem?_setIfInBounds]
  by_cases here : position = place
  · subst here
    simp [stored, held, same]
  · simp [here]

/-- The columns after a value was merged are those of the states after it. -/
theorem columns_merge? (states : SparseStates ν) (atom : Nat) (value : ν) :
    states.columns.merge? atom value = (states.merge? atom value).map columns := by
  have stored : states.columns.values.size = states.capacity := by
    simp [columns, storage, capacity]
  unfold Columns.merge? merge?
  rw [searchKey_columns]
  cases place : searchKey states.entries atom with
  | found position =>
    obtain ⟨inside, equal⟩ := search_found_eq place
    have hit : states.entries[position].atom = atom := Nat.compare_eq_eq.mp equal
    let merged : SparseStates ν :=
      { states with entries := states.entries.setIfInBounds position ⟨atom, value⟩ }
    have written : merged.storage = states.storage.setIfInBounds position ⟨atom, value⟩ := by
      rw [← storage_overwriteAt]
      exact congrArg storage (overwriteAt_entry inside ⟨atom, value⟩).symm
    simp only [Option.map_some, Option.some.injEq]
    symm
    apply columns_eq
    · rw [written, atoms_overwriteAt inside ⟨atom, value⟩ hit]
      rfl
    · rw [written, Array.map_setIfInBounds]
      rfl
    · simp [SparseStates.count, columns]
  | missing position =>
    have inside := search_missing_le place
    simp only [stored]
    by_cases room : states.count < states.capacity
    · let merged : SparseStates ν :=
        { entries := states.entries.insertIdxIfInBounds position ⟨atom, value⟩
          stale := states.stale.drop 1 }
      have written : merged.storage =
          (copyWithin position states.count (position + 1) states.storage).setIfInBounds position
            ⟨atom, value⟩ := by
        rw [← storage_moveUp inside room, ← storage_overwriteAt,
          ← storage_extend (overwriteAt _ _ _), insert_eq inside room]
      have spare : states.columns.count < states.capacity := room
      rw [dif_pos spare, if_pos room, Option.map_some, Option.some.injEq]
      symm
      apply columns_eq
      · rw [written, Array.map_setIfInBounds, map_copyWithin]
        rfl
      · rw [written, Array.map_setIfInBounds, map_copyWithin]
        rfl
      · simp [SparseStates.count, columns, Array.insertIdxIfInBounds, inside]
    · have full : ¬states.columns.count < states.capacity := room
      rw [dif_neg full, if_neg room]
      rfl

/-- The columns after an entry was removed are those of the states after it. -/
theorem columns_remove? (states : SparseStates ν) (atom : Nat) :
    states.columns.remove? atom = (states.remove? atom).map columns := by
  unfold Columns.remove? remove?
  rw [searchKey_columns]
  cases place : searchKey states.entries atom with
  | missing position => rfl
  | found position =>
    have inside := search_found_lt place
    have moved := storage_erase inside
    simp only [Option.map_some, Option.some.injEq]
    symm
    apply columns_eq
    · rw [storage, moved, map_copyWithin]
      rfl
    · rw [storage, moved, map_copyWithin]
      rfl
    · simp [SparseStates.count, columns, Array.eraseIdxIfInBounds, inside]

end SparseStates

end BehaviorTree
