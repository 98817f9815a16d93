import BehaviorTree.Ordered.Cursor
import BehaviorTree.Ordered.Search
import Mathlib.Data.List.Basic
import Mathlib.Tactic.ByContra

namespace BehaviorTree.Ordered
variable {α : Type}

/-- The search ends at the last position of its window that does not lie above, if there is one. -/
theorem narrow_last (probe : Nat → Ordering)
    (monotone : ∀ first second, first ≤ second → probe first = .gt → probe second = .gt)
    (base size : Nat) (used : 0 < size) :
    (narrow probe base size = base ∨ probe (narrow probe base size) ≠ .gt) ∧
      ∀ position, narrow probe base size < position → position < base + size →
        probe position = .gt := by
  fun_induction narrow probe base size with
  | case1 base size large above ih =>
    obtain ⟨found, beyond⟩ := ih (by omega)
    refine ⟨found, fun position later inside => ?_⟩
    by_cases lower : position < base + (size - size / 2)
    · exact beyond position later lower
    · exact monotone (base + size / 2) position (by omega) above
  | case2 base size large below ih =>
    obtain ⟨found, beyond⟩ := ih (by omega)
    refine ⟨Or.inr ?_, fun position later inside => beyond position later (by omega)⟩
    rcases found with stays | found
    · rw [stays]
      exact below
    · exact found
  | case3 base size small =>
    exact ⟨Or.inl rfl, fun position later inside => by omega⟩

/-- What the last probe of a search decides: everything behind it lies above, and it lies above
itself only at the front. -/
structure Decides (entries : Array α) (compare : α → Ordering) (last : Nat) : Prop where
  inside : last < entries.size
  reached : last = 0 ∨ compare entries[last] ≠ .gt
  beyond : ∀ position (within : position < entries.size), last < position →
    compare entries[position] = .gt
  found : compare entries[last] = .eq → search entries compare = .found last
  behind : compare entries[last] = .lt → search entries compare = .missing (last + 1)
  before : compare entries[last] = .gt → search entries compare = .missing last

/-- A search of a nonempty array in which everything behind an entry above lies above too has a
deciding probe. -/
theorem search_decides (entries : Array α) (compare : α → Ordering)
    (monotone : ∀ first second (ordered : first < second) (inside : second < entries.size),
      compare entries[first] = .gt → compare entries[second] = .gt)
    (used : 0 < entries.size) : ∃ last, Decides entries compare last := by
  have probe_eq (position : Nat) (within : position < entries.size) :
      probeAt entries compare position = compare entries[position] := by
    simp [probeAt, within]
  have probes_rise : ∀ first second, first ≤ second → probeAt entries compare first = .gt →
      probeAt entries compare second = .gt := by
    intro first second ordered above
    by_cases within : second < entries.size
    · rw [probe_eq first (by omega)] at above
      rw [probe_eq second within]
      rcases Nat.lt_or_eq_of_le ordered with earlier | rfl
      · exact monotone first second earlier within above
      · exact above
    · simp [probeAt, Nat.not_lt.mp within]
  have nonempty : entries.isEmpty = false := by simpa using Nat.ne_of_gt used
  obtain ⟨reached, beyond⟩ := narrow_last (probeAt entries compare) probes_rise 0 entries.size used
  obtain ⟨-, within⟩ := narrow_within (probeAt entries compare) 0 entries.size used
  rw [Nat.zero_add] at within
  rw [probe_eq _ within] at reached
  refine ⟨narrow (probeAt entries compare) 0 entries.size, within, reached, ?_, ?_, ?_, ?_⟩
  · intro position valid later
    rw [← probe_eq position valid]
    exact beyond position later (by omega)
  all_goals
    intro outcome
    rw [← probe_eq _ within] at outcome
    simp [search, nonempty, outcome]

/-- The leading entries are those that satisfy the condition, if no entry does after one that does
not. -/
theorem lt_partitionPoint_iff (entries : Array α) (leading : α → Bool)
    (closed : ∀ first second (ordered : first < second) (inside : second < entries.size),
      leading entries[second] = true → leading entries[first] = true)
    (position : Nat) (inside : position < entries.size) :
    position < partitionPoint entries leading ↔ leading entries[position] = true := by
  let side (entry : α) : Ordering := if leading entry then .lt else .gt
  have side_lt (entry : α) (holds : leading entry = true) : side entry = .lt := if_pos holds
  have side_gt (entry : α) : side entry = .gt ↔ leading entry = false := by
    cases leads : leading entry <;> simp [side, leads]
  have monotone : ∀ first second (ordered : first < second) (within : second < entries.size),
      side entries[first] = .gt → side entries[second] = .gt := by
    intro first second ordered within above
    rw [side_gt] at above ⊢
    by_contra holds
    simp [closed first second ordered within (by simpa using holds)] at above
  obtain ⟨last, decides⟩ := search_decides entries side monotone (by omega)
  have last_inside := decides.inside
  have later (behind : last < position) : leading entries[position] = false :=
    (side_gt _).mp (decides.beyond position inside behind)
  by_cases holds : leading entries[last] = true
  · have point : partitionPoint entries leading = last + 1 := by
      rw [partitionPoint, decides.behind (side_lt _ holds)]
    rw [point]
    rcases Nat.lt_trichotomy position last with earlier | rfl | behind
    · exact ⟨fun _ => closed position last earlier last_inside holds, fun _ => by omega⟩
    · exact ⟨fun _ => holds, fun _ => by omega⟩
    · simp only [later behind, Bool.false_eq_true, iff_false]
      omega
  · -- Only the front of the array ends the search at an entry above.
    have fails : leading entries[last] = false := by simpa using holds
    have above : side entries[last] = .gt := (side_gt _).mpr fails
    have first : last = 0 := decides.reached.resolve_right fun reached => reached above
    have point : partitionPoint entries leading = 0 := by
      rw [partitionPoint, decides.before above, first]
    rw [point]
    rcases Nat.eq_or_lt_of_le (Nat.zero_le position) with rfl | behind
    · subst first
      simp [fails]
    · simp [later (by omega)]

/-- What is found stands in the array. -/
theorem search_found_lt {entries : Array α} {compare : α → Ordering} {position : Nat}
    (found : search entries compare = .found position) : position < entries.size := by
  unfold search at found
  split at found
  · cases found
  · next nonempty =>
    have used : 0 < entries.size := by
      simpa [Array.isEmpty_iff_size_eq_zero, Nat.pos_iff_ne_zero] using nonempty
    have within := (narrow_within (probeAt entries compare) 0 entries.size used).2
    dsimp only at found
    split at found <;> cases found
    omega

/-- What is found compares as equal, whatever the order of the array. -/
theorem search_found_eq {entries : Array α} {compare : α → Ordering} {position : Nat}
    (found : search entries compare = .found position) :
    ∃ inside : position < entries.size, compare entries[position] = .eq := by
  have inside := search_found_lt found
  refine ⟨inside, ?_⟩
  unfold search at found
  split at found
  · cases found
  · dsimp only at found
    split at found
    · next hit =>
      obtain rfl := Place.found.inj found
      simpa [probeAt, inside] using hit
    all_goals cases found

/-- What is missing is to be inserted in the array, or at its end. -/
theorem search_missing_le {entries : Array α} {compare : α → Ordering} {position : Nat}
    (missing : search entries compare = .missing position) : position ≤ entries.size := by
  unfold search at missing
  split at missing
  · cases missing
    exact Nat.zero_le _
  · next nonempty =>
    have used : 0 < entries.size := by
      simpa [Array.isEmpty_iff_size_eq_zero, Nat.pos_iff_ne_zero] using nonempty
    have within := (narrow_within (probeAt entries compare) 0 entries.size used).2
    dsimp only at missing
    split at missing <;> cases missing <;> omega

/-- There are no more leading entries than entries. -/
theorem partitionPoint_le_size (entries : Array α) (leading : α → Bool) :
    partitionPoint entries leading ≤ entries.size := by
  unfold partitionPoint
  split <;> rename_i place
  · exact Nat.le_of_lt (search_found_lt place)
  · exact search_missing_le place

theorem toList_arrayDrop (entries : Array α) (count : Nat) :
    (entries.drop count).toList = entries.toList.drop count := by
  simp [List.take_of_length_le]

theorem toList_arrayTake (entries : Array α) (count : Nat) :
    (entries.take count).toList = entries.toList.take count := by
  simp

variable [Keyed α]

/-- Exactly the entries before the cursor have keys below the bound. -/
structure Splits (entries : Array α) (bound cursor : Nat) : Prop where
  within : cursor ≤ entries.size
  before_iff : ∀ position (inside : position < entries.size),
    position < cursor ↔ key entries[position] < bound

namespace Splits
variable {entries : Array α} {bound cursor : Nat}

theorem key_lt_of_mem_take (splits : Splits entries bound cursor) {entry : α}
    (member : entry ∈ entries.toList.take cursor) : key entry < bound := by
  obtain ⟨position, inside, rfl⟩ := List.getElem_of_mem member
  rw [List.length_take, Array.length_toList] at inside
  simpa using (splits.before_iff position (by omega)).mp (by omega)

theorem le_key_of_mem_drop (splits : Splits entries bound cursor) {entry : α}
    (member : entry ∈ entries.toList.drop cursor) : bound ≤ key entry := by
  obtain ⟨position, inside, rfl⟩ := List.getElem_of_mem member
  rw [List.length_drop, Array.length_toList] at inside
  have above := (splits.before_iff (cursor + position) (by omega)).not.mp (by omega)
  simpa using above

/-- The entries before the cursor. -/
theorem toList_take (splits : Splits entries bound cursor) :
    entries.toList.take cursor =
      entries.toList.filter fun entry => decide (key entry < bound) := by
  conv_rhs => rw [← List.take_append_drop cursor entries.toList, List.filter_append]
  rw [List.filter_eq_self.mpr, List.filter_eq_nil_iff.mpr, List.append_nil]
  · intro entry member
    simpa using splits.le_key_of_mem_drop member
  · intro entry member
    simpa using splits.key_lt_of_mem_take member

/-- The entries from the cursor on. -/
theorem toList_drop (splits : Splits entries bound cursor) :
    entries.toList.drop cursor =
      entries.toList.filter fun entry => decide (bound ≤ key entry) := by
  conv_rhs => rw [← List.take_append_drop cursor entries.toList, List.filter_append]
  rw [List.filter_eq_nil_iff.mpr, List.filter_eq_self.mpr, List.nil_append]
  · intro entry member
    simpa using splits.le_key_of_mem_drop member
  · intro entry member
    simpa using splits.key_lt_of_mem_take member

end Splits

/-- In an ascending array the later of two positions has the larger key. -/
theorem key_lt_of_lt {entries : Array α} (ascending : Ascending entries.toList)
    {first second : Nat} (ordered : first < second) (inside : second < entries.size) :
    key entries[first] < key entries[second] :=
  List.pairwise_iff_getElem.mp ascending first second (Nat.lt_trans ordered inside) inside ordered

/-- The search of a key in a nonempty ascending array has a deciding probe. -/
theorem searchKey_decides {entries : Array α} (ascending : Ascending entries.toList) (sought : Nat)
    (used : 0 < entries.size) :
    ∃ last, Decides entries (fun entry => compare (key entry) sought) last := by
  refine search_decides entries _ (fun first second ordered inside above => ?_) used
  rw [Nat.compare_eq_gt] at above ⊢
  exact Nat.lt_trans above (key_lt_of_lt ascending ordered inside)

/-- The binary search finds exactly the position of the sought key. -/
theorem searchKey_eq_found_iff {entries : Array α} (ascending : Ascending entries.toList)
    (sought position : Nat) :
    searchKey entries sought = .found position ↔
      ∃ inside : position < entries.size, key entries[position] = sought := by
  by_cases used : 0 < entries.size
  · obtain ⟨last, decides⟩ := searchKey_decides ascending sought used
    have inside := decides.inside
    constructor
    · intro found
      cases outcome : compare (key entries[last]) sought with
      | lt => cases (decides.behind outcome).symm.trans found
      | gt => cases (decides.before outcome).symm.trans found
      | eq =>
        cases (decides.found outcome).symm.trans found
        exact ⟨inside, Nat.compare_eq_eq.mp outcome⟩
    · rintro ⟨valid, hit⟩
      have exactly : compare (key entries[position]) sought = .eq := Nat.compare_eq_eq.mpr hit
      have least : position ≤ last := by
        by_contra later
        cases exactly.symm.trans (decides.beyond position valid (by omega))
      rcases Nat.lt_or_eq_of_le least with earlier | rfl
      · -- An earlier hit would put the last position above, where the search does not end.
        have above : compare (key entries[last]) sought = .gt := by
          rw [Nat.compare_eq_gt, ← hit]
          exact key_lt_of_lt ascending earlier inside
        rcases decides.reached with first | reached
        · omega
        · exact absurd above reached
      · exact decides.found exactly
  · have empty : entries.isEmpty = true := by simpa using used
    simp only [searchKey, search, empty, if_true]
    constructor
    · intro found
      cases found
    · rintro ⟨inside, -⟩
      omega

/-- A key that is not found is missing, and belongs between the smaller keys and the larger ones. -/
theorem splits_of_missing {entries : Array α} (ascending : Ascending entries.toList)
    {sought position : Nat} (missing : searchKey entries sought = .missing position) :
    Splits entries sought position ∧ ∀ entry ∈ entries.toList, key entry ≠ sought := by
  have absent : ∀ entry ∈ entries.toList, key entry ≠ sought := by
    intro entry member hit
    obtain ⟨other, inside, rfl⟩ := List.getElem_of_mem member
    rw [Array.length_toList] at inside
    rw [Array.getElem_toList] at hit
    cases ((searchKey_eq_found_iff ascending sought other).mpr ⟨inside, hit⟩).symm.trans missing
  refine ⟨⟨search_missing_le missing, fun place within => ?_⟩, absent⟩
  obtain ⟨last, decides⟩ := searchKey_decides ascending sought (by omega)
  have inside := decides.inside
  have later (behind : last < place) : sought < key entries[place] :=
    Nat.compare_eq_gt.mp (decides.beyond place within behind)
  cases outcome : compare (key entries[last]) sought with
  | eq => exact absurd (Nat.compare_eq_eq.mp outcome) (absent _ (Array.getElem_mem_toList inside))
  | lt =>
    obtain rfl := Place.missing.inj ((decides.behind outcome).symm.trans missing)
    have below : key entries[last] < sought := Nat.compare_eq_lt.mp outcome
    rcases Nat.lt_trichotomy place last with earlier | rfl | behind
    · have := key_lt_of_lt ascending earlier inside
      omega
    · omega
    · have := later behind
      omega
  | gt =>
    obtain rfl := Place.missing.inj ((decides.before outcome).symm.trans missing)
    have above : sought < key entries[last] := Nat.compare_eq_gt.mp outcome
    have first : last = 0 := decides.reached.resolve_right fun reached => reached outcome
    rcases Nat.eq_or_lt_of_le (Nat.zero_le place) with rfl | behind
    · subst first
      omega
    · have := later (by omega)
      omega

end BehaviorTree.Ordered
