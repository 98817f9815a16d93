import BehaviorTree.Ordered.Reorder
import Mathlib.Data.List.Sort
import Mathlib.Tactic.ByContra

namespace BehaviorTree.Ordered
variable {α σ : Type}

theorem readAt_eq_ok {values : Array α} {position : Nat} (inside : position < values.size) :
    readAt values position = .ok values[position] := by
  simp [readAt, inside]

theorem writeAt_eq_ok {values : Array α} {position : Nat} (inside : position < values.size)
    (value : α) : writeAt values position value = .ok (values.set position value inside) :=
  dif_pos inside

section Sorting
variable [Keyed α]

/-- The keys do not fall. -/
def NonDecreasing (entries : List α) : Prop :=
  entries.Pairwise fun first second => key first ≤ key second

@[simp] theorem sortByKey_empty : sortByKey (#[] : Array α) = #[] := by
  simp [sortByKey]

/-- The general sort by key permutes its entries. -/
theorem sortByKey_perm (entries : Array α) : (sortByKey entries).toList.Perm entries.toList :=
  List.mergeSort_perm _ _

/-- After the general sort the keys do not fall. -/
theorem sortByKey_nonDecreasing (entries : Array α) : NonDecreasing (sortByKey entries).toList := by
  let inOrder (first second : α) : Bool := decide (key first ≤ key second)
  have transitive : ∀ first second third, inOrder first second = true →
      inOrder second third = true → inOrder first third = true := by
    intro first second third lower upper
    simp only [inOrder, decide_eq_true_eq] at lower upper ⊢
    omega
  have total : ∀ first second, (inOrder first second || inOrder second first) = true := by
    intro first second
    simp only [inOrder, Bool.or_eq_true, decide_eq_true_eq]
    omega
  have sorted := List.pairwise_mergeSort transitive total entries.toList
  simpa [NonDecreasing, sortByKey, inOrder] using sorted

/-- A sort permutes its entries, and their keys do not fall afterwards. -/
structure Sorting (sort : Array α → Array α) : Prop where
  perm (entries : Array α) : (sort entries).toList.Perm entries.toList
  ordered (entries : Array α) : NonDecreasing (sort entries).toList

/-- The general sort by key sorts. -/
theorem sorting_sortByKey : Sorting (sortByKey (α := α)) :=
  ⟨sortByKey_perm, sortByKey_nonDecreasing⟩

/-- Different keys that do not fall ascend. -/
theorem NonDecreasing.ascending {entries : List α} (ordered : NonDecreasing entries)
    (distinct : (entries.map key).Nodup) : Ascending entries := by
  rw [List.Nodup, List.pairwise_map] at distinct
  exact (ordered.and distinct).imp fun both => Nat.lt_of_le_of_ne both.1 both.2

/-- Entries with different keys can be sorted in one way only. -/
theorem eq_sortByKey {entries sorted : Array α} (perm : sorted.toList.Perm entries.toList)
    (ordered : NonDecreasing sorted.toList) (distinct : (entries.toList.map key).Nodup) :
    sorted = sortByKey entries ∧ Ascending sorted.toList := by
  have other := sortByKey_perm entries
  have ascending := ordered.ascending ((perm.map key).nodup_iff.mpr distinct)
  have ascending_other := (sortByKey_nonDecreasing entries).ascending
    ((other.map key).nodup_iff.mpr distinct)
  refine ⟨Array.ext' (List.Perm.eq_of_pairwise ?_ ascending ascending_other
    (perm.trans other.symm)), ascending⟩
  intro first second _ _ less more
  exact absurd more (Nat.lt_asymm less)

end Sorting

section Holding
variable [Parking α σ]

/-- The values parked in the first slots. -/
def held (slots : Array σ) (count : Nat) : List α := (slots.toList.take count).map Parking.parked

theorem length_held {slots : Array σ} {count : Nat} (within : count ≤ slots.size) :
    (held slots count : List α).length = count := by
  simp [held, within]

/-- The value in the next slot is the last one of a longer prefix. -/
theorem held_succ {slots : Array σ} {count : Nat} (inside : count < slots.size) :
    (held slots (count + 1) : List α) = held slots count ++ [Parking.parked slots[count]] := by
  simp [held, List.take_add_one, inside]

/-- The values in a longer prefix are those in a shorter one and the rest. -/
theorem held_append_drop (slots : Array σ) {first second : Nat} (shorter : first ≤ second) :
    (held slots first ++ (held slots second).drop first : List α) = held slots second := by
  have first_eq : (held slots first : List α) = (held slots second).take first := by
    simp [held, ← List.map_take, List.take_take, Nat.min_eq_left shorter]
  rw [first_eq, List.take_append_drop]

/-- Parking a value in the slot after the used ones adds it to them. -/
theorem held_parkIn [LawfulParking α σ] {slots : Array σ} {count : Nat}
    (inside : count < slots.size) (slot : σ) (value : α) :
    held (slots.set count (Parking.parkIn slot value) inside) (count + 1) =
      held slots count ++ [value] := by
  rw [held_succ (by simpa using inside)]
  simp only [Array.getElem_set_self, LawfulParking.parked_parkIn, held, Array.toList_set]
  rw [List.take_set_of_le (Nat.le_refl count)]

end Holding

variable [Keyed α]

namespace Output

/-- The part that holds output. -/
def written (output : Output α) : List α := output.entries.toList.drop output.write

/-- The output ends with the array, and ascends as long as it is marked so. -/
structure Valid (output : Output α) : Prop where
  within : output.write ≤ output.entries.size
  ordered : output.ascending = true → Ascending output.written

/-- At first nothing is written. -/
theorem valid_start (entries : Array α) : Valid ⟨entries, entries.size, true⟩ where
  within := Nat.le_refl _
  ordered _ := by
    rw [written, List.drop_eq_nil_of_le (by simp)]
    exact List.Pairwise.nil

/-- More entries have been written in front of the output. -/
structure Extends (output after : Output α) (front : List α) : Prop where
  size : after.entries.size = output.entries.size
  write : after.write + front.length = output.write
  written : after.written = front ++ output.written
  unread : ∀ count, count ≤ after.write →
    after.entries.toList.take count = output.entries.toList.take count
  valid : after.Valid

namespace Extends

theorem refl {output : Output α} (valid : output.Valid) : Extends output output [] :=
  ⟨rfl, rfl, rfl, fun _ _ => rfl, valid⟩

theorem trans {first second third : Output α} {front rest : List α}
    (lower : Extends first second front) (upper : Extends second third rest) :
    Extends first third (rest ++ front) where
  size := upper.size.trans lower.size
  write := by
    have := lower.write
    have := upper.write
    simp only [List.length_append]
    omega
  written := by rw [upper.written, lower.written, List.append_assoc]
  unread count below := by
    have := upper.write
    rw [upper.unread count below, lower.unread count (by omega)]
  valid := upper.valid

end Extends

/-- Where an unwritten position is left, one more entry can be placed. -/
theorem place_extends {output : Output α} (valid : output.Valid) (room : 0 < output.write)
    (entry : α) : ∃ after, output.place entry = .ok after ∧ Extends output after [entry] := by
  have within := valid.within
  have inside : output.write - 1 < output.entries.size := by omega
  have start : output.write - 1 + 1 = output.write := by omega
  let entries := output.entries.set (output.write - 1) entry inside
  have placed : entries.toList.drop (output.write - 1) = entry :: output.written := by
    have inside' : output.write - 1 < output.entries.toList.length := by simpa using inside
    simp only [entries, Array.toList_set, written]
    rw [List.drop_set, if_neg (Nat.lt_irrefl _), Nat.sub_self, List.drop_eq_getElem_cons inside',
      List.set_cons_zero, start]
  have next : entries[output.write]? = output.written.head? := by
    have : output.write - 1 ≠ output.write := by omega
    simp [entries, written, List.head?_drop, this]
  have step : ∃ ascending, output.place entry = .ok ⟨entries, output.write - 1, ascending⟩ ∧
      (ascending = true → output.ascending = true ∧
        ∀ second, entries[output.write]? = some second → key entry < key second) := by
    simp only [place, writeAt, dif_pos inside, Nat.ne_of_gt room, if_false]
    refine ⟨_, rfl, fun both => ?_⟩
    obtain ⟨before, smaller⟩ := Bool.and_eq_true_iff.mp both
    exact ⟨before, fun second found => by simpa [entries, found] using smaller⟩
  obtain ⟨ascending, stepped, kept⟩ := step
  refine ⟨_, stepped, by simp [entries], by simp [start], placed, ?_, by simp [entries]; omega, ?_⟩
  · intro count below
    simp only [entries, Array.toList_set]
    exact List.take_set_of_le below
  · intro marked
    obtain ⟨before, smaller⟩ := kept marked
    have ordered := valid.ordered before
    change Ascending (entries.toList.drop (output.write - 1))
    rw [placed]
    cases rest : output.written with
    | nil => exact List.pairwise_singleton _ _
    | cons second later =>
      have below : key entry < key second := smaller second (by rw [next, rest]; rfl)
      rw [rest] at ordered
      refine List.pairwise_cons.mpr ⟨fun other member => ?_, ordered⟩
      rcases List.mem_cons.mp member with rfl | member
      · exact below
      · exact Nat.lt_trans below ((List.pairwise_cons.mp ordered).1 other member)

end Output

open Output

variable [Parking α σ]

/-- A release moves held values to the front of the output, the lowest one foremost. -/
theorem release_extends (leaves : Nat → Bool) {slots : Array σ} {count : Nat} {output : Output α}
    (inside : count ≤ slots.size) (room : count ≤ output.write) (valid : output.Valid) :
    ∃ left after, release leaves slots count output = .ok (left, after) ∧ left ≤ count ∧
      Extends output after ((held slots count).drop left) ∧
      ((∀ above, leaves above = true) → left = 0) := by
  induction count generalizing output with
  | zero => exact ⟨0, output, rfl, Nat.le_refl 0, Extends.refl valid, fun _ => rfl⟩
  | succ count ih =>
    have read := readAt_eq_ok (Nat.lt_of_succ_le inside)
    by_cases leave : leaves (key (Parking.parked slots[count] : α)) = true
    · obtain ⟨middle, placed, lower⟩ :=
        place_extends valid (by omega) (Parking.parked slots[count] : α)
      have writes := lower.write
      simp only [List.length_singleton] at writes
      have room : count ≤ middle.write := by omega
      obtain ⟨left, after, released, fewer, upper, all⟩ := ih (by omega) room lower.valid
      refine ⟨left, after, ?_, by omega, ?_, all⟩
      · simp only [release, read, bind, Except.bind, leave, if_true, placed]
        exact released
      · rw [held_succ (by omega), List.drop_append_of_le_length
          (by rw [length_held (by omega)]; exact fewer)]
        exact lower.trans upper
    · refine ⟨count + 1, output, ?_, Nat.le_refl _, ?_, fun always => absurd (always _) leave⟩
      · simp only [release, read, bind, Except.bind, leave, Bool.false_eq_true, if_false]
        rfl
      · rw [List.drop_eq_nil_of_le (by rw [length_held inside])]
        exact Extends.refl valid

/-- At the end of a scan all that is held is written in front of the output, which is then whole. -/
theorem release_all {slots : Array σ} {count : Nat} {output : Output α}
    (inside : count ≤ slots.size) (write : output.write = count) (valid : output.Valid) :
    ∃ after, release (fun _ => true) slots count output = .ok (0, after) ∧ after.Valid ∧
      after.write = 0 ∧ after.entries.toList = held slots count ++ output.written := by
  obtain ⟨left, after, released, -, extended, all⟩ :=
    release_extends (fun _ => true) inside (Nat.le_of_eq write.symm) valid
  obtain rfl := all fun _ => rfl
  have writes := extended.write
  rw [List.drop_zero, length_held inside] at writes
  have start : after.write = 0 := by omega
  have whole : after.entries.toList = held slots count ++ output.written := by
    simpa [Output.written, start] using extended.written
  exact ⟨after, released, extended.valid, start, whole⟩

omit [Keyed α] in
/-- The held values go back behind the unread entries. -/
theorem unpark_ok {slots : Array σ} {start count : Nat} {entries : Array α}
    (inside : count ≤ slots.size) (room : start + count ≤ entries.size) :
    ∃ after, unpark slots start count entries = .ok after ∧ after.size = entries.size ∧
      after.toList =
        entries.toList.take start ++ held slots count ++ entries.toList.drop (start + count) := by
  induction count with
  | zero => exact ⟨entries, rfl, rfl, by simp [held]⟩
  | succ count ih =>
    obtain ⟨middle, unparked, size, before⟩ := ih (by omega) (by omega)
    have within : start + count < middle.size := by omega
    refine ⟨middle.set (start + count) (Parking.parked slots[count]) within, ?_,
      by simpa using size, ?_⟩
    · simp only [unpark, unparked, bind, Except.bind, readAt_eq_ok inside, writeAt_eq_ok within]
    · have first : (entries.toList.take start ++ (held slots count : List α)).length =
          start + count := by
        rw [List.length_append, List.length_take, length_held (by omega), Array.length_toList]
        omega
      have inside' : start + count < entries.toList.length := by simpa using (by omega)
      rw [Array.toList_set, before, List.set_append_right _ _ (by omega), first, Nat.sub_self,
        List.drop_eq_getElem_cons inside', List.set_cons_zero, held_succ (by omega)]
      simp [Nat.add_assoc]

/-- What a scan promises: its entries permute what it had in hand, and are in order. -/
structure Sorts (slots : Array σ) (given : List α) (result : Reordered α σ) : Prop where
  perm : result.entries.toList.Perm given
  ordered : NonDecreasing result.entries.toList
  size : result.slots.size = slots.size

/-- A scan sorts the unread entries, the held values and the output together. -/
theorem scan_sorts [LawfulParking α σ] {sort : Array α → Array α} (sorting : Sorting sort)
    {position count : Nat} {slots : Array σ} {output : Output α} (inside : count ≤ slots.size)
    (write : output.write = position + count) (valid : output.Valid) :
    ∃ result, scan sort position slots count output = .ok result ∧
      Sorts slots (output.entries.toList.take position ++ held slots count ++ output.written)
        result := by
  induction position generalizing count slots output with
  | zero =>
    obtain ⟨after, released, full, start, whole⟩ := release_all inside (by omega) valid
    refine ⟨⟨if after.ascending then after.entries else sort after.entries, slots,
      after.ascending⟩, ?_, ?_⟩
    · simp only [scan, released, bind, Except.bind, require, start, beq_self_eq_true, if_true]
      rfl
    · by_cases ascending : after.ascending = true
      · refine ⟨?_, ?_, rfl⟩
        · simp [ascending, whole]
        · have ordered := full.ordered ascending
          simp only [written, start, List.drop_zero] at ordered
          simp only [ascending, if_true]
          exact ordered.imp Nat.le_of_lt
      · refine ⟨?_, ?_, rfl⟩
        · simpa [ascending, whole] using sorting.perm after.entries
        · simpa [ascending] using sorting.ordered after.entries
  | succ position ih =>
    have within := valid.within
    have reads : position < output.entries.size := by omega
    have read := readAt_eq_ok reads
    generalize found : output.entries[position] = current at read
    obtain ⟨left, after, released, fewer, extended, -⟩ :=
      release_extends (fun above => decide (key current < above)) inside (by omega) valid
    have writes := extended.write
    rw [List.length_drop, length_held inside] at writes
    have size := extended.size
    have unread : after.entries.toList.take position = output.entries.toList.take position :=
      extended.unread position (by omega)
    -- The entry read moves behind the values that stay held; what was released joined the output.
    have moved : (after.entries.toList.take position ++ held slots left ++
        current :: after.written).Perm
        (output.entries.toList.take (position + 1) ++ held slots count ++ output.written) := by
      rw [← held_append_drop slots fewer, List.take_add_one, extended.written, unread]
      simp only [Array.getElem?_toList, Array.getElem?_eq_getElem reads, found,
        Option.toList_some, List.append_assoc, List.cons_append, List.nil_append]
      exact List.Perm.append_left _ List.perm_middle
    have full : position + left < after.entries.size := by omega
    by_cases overflow : left = slots.size
    · obtain ⟨middle, unparked, same, restored⟩ :=
        unpark_ok (Nat.le_of_eq overflow) (Nat.le_of_lt full)
      have room : position + left < middle.size := by omega
      have whole : (middle.set (position + left) current room).toList =
          after.entries.toList.take position ++ held slots left ++ current :: after.written := by
        have first : (after.entries.toList.take position ++ (held slots left : List α)).length =
            position + left := by
          rw [List.length_append, List.length_take, length_held (Nat.le_of_eq overflow),
            Array.length_toList]
          omega
        have full' : position + left < after.entries.toList.length := by simpa using full
        have next : position + left + 1 = after.write := by omega
        rw [Array.toList_set, restored, List.set_append_right _ _ (by omega), first, Nat.sub_self,
          List.drop_eq_getElem_cons full', List.set_cons_zero, next]
        rfl
      refine ⟨⟨sort (middle.set (position + left) current room), slots, false⟩, ?_, ?_⟩
      · simp only [scan, read, bind, Except.bind, released, if_pos overflow, unparked,
          writeAt_eq_ok room]
        rfl
      · refine ⟨?_, sorting.ordered _, rfl⟩
        apply (sorting.perm _).trans
        rw [whole]
        exact moved
    · have room : left < slots.size := by omega
      have fits : left + 1 ≤ (slots.set left (Parking.parkIn slots[left] current) room).size := by
        simpa using Nat.succ_le_of_lt room
      have next : after.write = position + (left + 1) := by omega
      obtain ⟨result, scanned, sorts⟩ := ih fits next extended.valid
      refine ⟨result, ?_, ?_, sorts.ordered, ?_⟩
      · simp only [scan, read, bind, Except.bind, released, if_neg overflow, readAt_eq_ok room,
          writeAt_eq_ok room]
        exact scanned
      · apply sorts.perm.trans
        rw [held_parkIn room]
        simpa using moved
      · simpa using sorts.size

/-- A reorder sorts its entries, with slots of any number, if the sort that takes over does. -/
theorem reorderWith_sorts [LawfulParking α σ] {sort : Array α → Array α} (sorting : Sorting sort)
    (entries : Array α) (slots : Array σ) :
    ∃ result, reorderWith sort entries slots = .ok result ∧
      Sorts slots entries.toList result := by
  let output : Output α := ⟨entries, entries.size, true⟩
  have nothing : output.written = [] := List.drop_eq_nil_of_le (by simp [output])
  have valid : output.Valid := valid_start entries
  have write : output.write = entries.size + 0 := rfl
  obtain ⟨result, scanned, sorts⟩ := scan_sorts sorting (Nat.zero_le slots.size) write valid
  refine ⟨result, scanned, ?_⟩
  rw [nothing, List.take_of_length_le (by simp [output])] at sorts
  simpa [output, held] using sorts

/-- A reorder sorts its entries, with slots of any number. -/
theorem reorder_sorts [LawfulParking α σ] (entries : Array α) (slots : Array σ) :
    ∃ result, reorder entries slots = .ok result ∧ Sorts slots entries.toList result :=
  reorderWith_sorts sorting_sortByKey entries slots

/-- Entries with different keys come out the same, whatever the slots are. -/
theorem entries_eq_of_reorder [LawfulParking α σ] {entries : Array α} {slots others : Array σ}
    {result other : Reordered α σ} (distinct : (entries.toList.map key).Nodup)
    (ordered : reorder entries slots = .ok result) (again : reorder entries others = .ok other) :
    other.entries = result.entries := by
  obtain ⟨_, same, sorts⟩ := reorder_sorts entries slots
  obtain rfl := Except.ok.inj (same.symm.trans ordered)
  obtain ⟨_, same, sorts_again⟩ := reorder_sorts entries others
  obtain rfl := Except.ok.inj (same.symm.trans again)
  exact (eq_sortByKey sorts_again.perm sorts_again.ordered distinct).1.trans
    (eq_sortByKey sorts.perm sorts.ordered distinct).1.symm

end BehaviorTree.Ordered
