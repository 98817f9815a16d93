import BehaviorTree.Proofs.Storage.Insertion

namespace BehaviorTree
open Ordered

/-- Entries fall apart around an atom: those below it, the one that it has, if any, and those above
it. -/
structure Parts {ν : Type} (entries : List (Entry ν)) (atom : Nat) (lower : List (Entry ν))
    (known : Option ν) (upper : List (Entry ν)) : Prop where
  whole : entries = lower ++ ((known.map (Entry.mk atom)).toList ++ upper)
  below : ∀ entry ∈ lower, entry.atom < atom
  above : ∀ entry ∈ upper, atom < entry.atom

namespace Parts
variable {ν : Type} {entries lower upper : List (Entry ν)} {atom : Nat} {known : Option ν}

/-- What an atom has is what stands between the parts. -/
theorem mem_iff (parts : Parts entries atom lower known upper) (value : ν) :
    ⟨atom, value⟩ ∈ entries ↔ known = some value := by
  have lower_free : (⟨atom, value⟩ : Entry ν) ∉ lower :=
    fun member => Nat.lt_irrefl _ (parts.below _ member)
  have upper_free : (⟨atom, value⟩ : Entry ν) ∉ upper :=
    fun member => Nat.lt_irrefl _ (parts.above _ member)
  rw [parts.whole]
  cases known <;> simp [lower_free, upper_free, eq_comm]

/-- What another atom has stands in one of the parts. -/
theorem mem_iff_of_ne (parts : Parts entries atom lower known upper) {other : Nat}
    (differs : atom ≠ other) (value : ν) :
    ⟨other, value⟩ ∈ entries ↔ ⟨other, value⟩ ∈ lower ∨ ⟨other, value⟩ ∈ upper := by
  rw [parts.whole]
  cases known <;> simp [Ne.symm differs]

/-- Another value, or none, may stand between the parts. -/
theorem replace (parts : Parts entries atom lower known upper) (other : Option ν) :
    Parts (lower ++ ((other.map (Entry.mk atom)).toList ++ upper)) atom lower other upper :=
  ⟨rfl, parts.below, parts.above⟩

theorem ascending (parts : Parts entries atom lower known upper) (ordered : Ascending entries)
    (other : Option ν) :
    Ascending (lower ++ ((other.map (Entry.mk atom)).toList ++ upper)) := by
  rw [parts.whole, Ascending, List.pairwise_append, List.pairwise_append] at ordered
  obtain ⟨lower_ordered, ⟨-, upper_ordered, -⟩, -⟩ := ordered
  have middle : Ascending (other.map (Entry.mk atom)).toList := by cases other <;> simp [Ascending]
  rw [Ascending, List.pairwise_append, List.pairwise_append]
  refine ⟨lower_ordered, ⟨middle, upper_ordered, ?_⟩, ?_⟩
  · intro entry member larger behind
    cases other <;> simp at member
    subst member
    exact parts.above larger behind
  · intro smaller before entry member
    have below := parts.below smaller before
    rcases List.mem_append.mp member with here | behind
    · cases other <;> simp at here
      subst here
      exact below
    · exact Nat.lt_trans below (parts.above entry behind)

end Parts

namespace SparseStates
variable {ν : Type} {states : SparseStates ν}

/-- The binary search finds the place between the parts. -/
theorem exists_parts (ascending : Ascending states.entries.toList) (atom : Nat) :
    ∃ lower known upper, Parts states.entries.toList atom lower known upper ∧
      searchKey states.entries atom =
        if known.isSome then .found lower.length else .missing lower.length := by
  cases place : searchKey states.entries atom with
  | found position =>
    obtain ⟨inside, hit⟩ := (searchKey_eq_found_iff ascending atom position).mp place
    have within : position < states.entries.toList.length := inside
    have split : states.entries.toList =
        states.entries.toList.take position ++
          states.entries.toList[position] :: states.entries.toList.drop (position + 1) := by
      rw [← List.drop_eq_getElem_cons within, List.take_append_drop]
    have here : states.entries.toList[position] = ⟨atom, states.entries[position].value⟩ := by
      rw [Array.getElem_toList, ← hit]
      rfl
    have ordered := ascending
    rw [split, Ascending, List.pairwise_append, List.pairwise_cons] at ordered
    obtain ⟨-, ⟨above, -⟩, below⟩ := ordered
    rw [here] at split above below
    refine ⟨_, some states.entries[position].value, _, ⟨split, ?_, above⟩, ?_⟩
    · intro entry member
      exact below entry member _ List.mem_cons_self
    · simp [Nat.le_of_lt inside]
  | missing position =>
    obtain ⟨splits, absent⟩ := splits_of_missing ascending place
    refine ⟨states.entries.toList.take position, none, states.entries.toList.drop position,
      ⟨?_, fun entry member => splits.key_lt_of_mem_take member, fun entry member => ?_⟩, ?_⟩
    · simp
    · have reached := splits.le_key_of_mem_drop member
      have other := absent entry (List.mem_of_mem_drop member)
      exact Nat.lt_of_le_of_ne reached (Ne.symm other)
    · simp [splits.within]

/-! ## What is found -/

/-- What is found for an atom stands between the parts. -/
theorem find?_of_parts {atom : Nat} {lower upper : List (Entry ν)} {known : Option ν}
    (parts : Parts states.entries.toList atom lower known upper)
    (place : searchKey states.entries atom =
      if known.isSome then .found lower.length else .missing lower.length) :
    states.find? atom = known := by
  cases known with
  | none => simp [find?, place]
  | some value =>
    have read : states.entries[lower.length]? = some ⟨atom, value⟩ := by
      rw [← Array.getElem?_toList, parts.whole]
      simp
    simp [find?, place, read]

/-- The value that is found for an atom is that of the atom's entry. -/
theorem find?_eq_some_iff (ascending : Ascending states.entries.toList) (atom : Nat) (value : ν) :
    states.find? atom = some value ↔ ⟨atom, value⟩ ∈ states.entries.toList := by
  obtain ⟨lower, known, upper, parts, place⟩ := exists_parts ascending atom
  rw [find?_of_parts parts place, parts.mem_iff]

/-- Nothing is found for an atom exactly if it has no entry. -/
theorem find?_eq_none_iff (ascending : Ascending states.entries.toList) (atom : Nat) :
    states.find? atom = none ↔ ∀ entry ∈ states.entries.toList, entry.atom ≠ atom := by
  constructor
  · rintro none entry member rfl
    rw [(find?_eq_some_iff ascending entry.atom entry.value).mpr member] at none
    cases none
  · intro absent
    cases hit : states.find? atom with
    | none => rfl
    | some value =>
      exact absurd rfl (absent _ ((find?_eq_some_iff ascending atom value).mp hit))

/-! ## Changes -/

/-- A merge puts the value between the parts, where there is an entry or room for one. -/
theorem merge?_parts {atom : Nat} {lower upper : List (Entry ν)} {known : Option ν}
    (parts : Parts states.entries.toList atom lower known upper)
    (place : searchKey states.entries atom =
      if known.isSome then .found lower.length else .missing lower.length)
    (room : known.isSome ∨ states.count < states.capacity) (value : ν) :
    ∃ merged, states.merge? atom value = some merged ∧ merged.capacity = states.capacity ∧
      merged.entries.toList = lower ++ ⟨atom, value⟩ :: upper := by
  have whole := parts.whole
  cases known with
  | some old =>
    refine ⟨_, by simp only [merge?, place, Option.isSome_some, if_true]; rfl, ?_, ?_⟩
    · simp [capacity]
    · rw [Array.toList_setIfInBounds, whole]
      simp
  | none =>
    have room : states.count < states.capacity := by simpa using room
    have inside : lower.length ≤ states.entries.size := by
      rw [← Array.length_toList, whole]
      simp
    have inserted : states.merge? atom value =
        some { entries := states.entries.insertIdxIfInBounds lower.length ⟨atom, value⟩
               stale := states.stale.drop 1 } := by
      simp only [merge?, place, Option.isSome_none, Bool.false_eq_true, if_false, if_pos room]
    refine ⟨_, inserted, ?_, ?_⟩
    · simp only [capacity, count] at room ⊢
      simp [Array.insertIdxIfInBounds, inside]
      omega
    · simp only [Array.insertIdxIfInBounds, dif_pos inside, Array.toList_insertIdx, whole]
      exact insertIdx_length _ _ _

theorem merge?_full {atom : Nat} {lower : List (Entry ν)}
    (place : searchKey states.entries atom = .missing lower.length)
    (full : ¬states.count < states.capacity) (value : ν) : states.merge? atom value = none := by
  simp only [merge?, place, if_neg full]

/-- A removal leaves only the parts. -/
theorem remove?_parts {atom : Nat} {lower upper : List (Entry ν)} {old : ν}
    (parts : Parts states.entries.toList atom lower (some old) upper)
    (place : searchKey states.entries atom = .found lower.length) :
    ∃ removed, states.remove? atom = some removed ∧ removed.capacity = states.capacity ∧
      removed.entries.toList = lower ++ upper := by
  have whole := parts.whole
  have inside : lower.length < states.entries.size := by
    rw [← Array.length_toList, whole]
    simp
  refine ⟨_, by simp only [remove?, place]; rfl, ?_, ?_⟩
  · simp [capacity, count, Array.eraseIdxIfInBounds, inside]
    omega
  · rw [Array.toList_eraseIdxIfInBounds, whole]
    simp [List.eraseIdx_append_of_length_le]

/-- A value that is merged for an atom with an entry takes the place of the old one. -/
theorem merge?_known (ascending : Ascending states.entries.toList) {atom : Nat}
    (known : (states.find? atom).isSome) (value : ν) :
    ∃ merged, states.merge? atom value = some merged ∧ merged.capacity = states.capacity ∧
      merged.atoms = states.atoms ∧ Ascending merged.entries.toList ∧
      ∀ other, merged.find? other = if other = atom then some value else states.find? other := by
  obtain ⟨lower, before, upper, parts, place⟩ := exists_parts ascending atom
  rw [find?_of_parts parts place] at known
  obtain ⟨merged, merges, capacity, written⟩ := merge?_parts parts place (.inl known) value
  obtain ⟨old, rfl⟩ := Option.isSome_iff_exists.mp known
  have replaced : Parts merged.entries.toList atom lower (some value) upper := by
    rw [written]
    exact parts.replace (some value)
  have ordered : Ascending merged.entries.toList := by
    rw [written]
    exact parts.ascending ascending (some value)
  refine ⟨merged, merges, capacity, ?_, ordered, fun other => ?_⟩
  · rw [atoms, atoms, written, parts.whole]
    simp
  · apply Option.ext
    intro found
    by_cases same : other = atom
    · subst same
      rw [if_pos rfl, find?_eq_some_iff ordered, replaced.mem_iff]
    · have differs := Ne.symm same
      rw [if_neg same, find?_eq_some_iff ordered, find?_eq_some_iff ascending,
        replaced.mem_iff_of_ne differs, parts.mem_iff_of_ne differs]

end SparseStates

end BehaviorTree
