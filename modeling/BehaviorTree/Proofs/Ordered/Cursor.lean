import BehaviorTree.Proofs.Storage.Entries

namespace BehaviorTree.Ordered
variable {α : Type} [Keyed α]

namespace Splits
variable {entries : Array α} {bound cursor : Nat}

/-- A fresh cursor has passed nothing. -/
theorem zero (entries : Array α) : Splits entries 0 0 :=
  ⟨Nat.zero_le _, fun position _ => by simp⟩

/-- An advance passes exactly the entries below the sought key. -/
theorem advance (splits : Splits entries bound cursor) (ascending : Ascending entries.toList)
    (sought : Nat) : Splits entries (max bound sought) (advance entries sought cursor) := by
  refine ⟨advance_le_size entries sought cursor splits.within, fun position inside => ?_⟩
  have start := splits.before_iff position inside
  constructor
  · intro passed
    by_cases before : position < cursor
    · have := start.mp before
      omega
    · have := key_lt_of_lt_advance entries sought cursor position (by omega) passed inside
      omega
  · intro below
    by_contra behind
    have within : Ordered.advance entries sought cursor < entries.size := by omega
    have stop := le_key_advance entries sought cursor within
    have reached := le_advance entries sought cursor
    have larger : key entries[Ordered.advance entries sought cursor] ≤ key entries[position] := by
      rcases Nat.lt_or_eq_of_le (Nat.not_lt.mp behind) with later | same
      · exact Nat.le_of_lt (key_lt_of_lt ascending later inside)
      · simp [same]
    have := start.not.mp (by omega)
    omega

/-- A cursor that stands on a key moves past it by one step. -/
theorem step (splits : Splits entries bound cursor) (ascending : Ascending entries.toList)
    (inside : cursor < entries.size) (hit : key entries[cursor] = bound) :
    Splits entries (bound + 1) (cursor + 1) := by
  refine ⟨inside, fun position within => ?_⟩
  have before := splits.before_iff position within
  rcases Nat.lt_trichotomy position cursor with earlier | rfl | later
  · have := before.mp earlier
    omega
  · omega
  · have := key_lt_of_lt ascending later within
    omega

/-- A partition point splits at its bound. -/
theorem partitionPoint {entries : Array α} (ascending : Ascending entries.toList) (bound : Nat) :
    Splits entries bound (partitionPoint entries fun entry => decide (key entry < bound)) := by
  refine ⟨partitionPoint_le_size entries _, fun position inside => ?_⟩
  have leading := lt_partitionPoint_iff entries (fun entry => decide (key entry < bound))
    (fun first second ordered within below => by
      rw [decide_eq_true_eq] at below ⊢
      exact Nat.lt_trans (key_lt_of_lt ascending ordered within) below) position inside
  rwa [decide_eq_true_eq] at leading

/-- A split of what lies behind the cursor moves the cursor on. -/
theorem behind (splits : Splits entries bound cursor) {limit passed : Nat}
    (rest : Splits (entries.drop cursor) limit passed) :
    Splits entries (max bound limit) (cursor + passed) := by
  have size : (entries.drop cursor).size = entries.size - cursor := by simp
  have within := splits.within
  have rest_within := rest.within
  refine ⟨by omega, fun position inside => ?_⟩
  have before := splits.before_iff position inside
  by_cases earlier : position < cursor
  · have := before.mp earlier
    omega
  · have reached := before.not.mp earlier
    have behind : position - cursor < (entries.drop cursor).size := by omega
    have later := rest.before_iff (position - cursor) behind
    have same : (entries.drop cursor)[position - cursor] = entries[position] := by
      simp only [Array.getElem_extract]
      congr 1
      omega
    rw [same] at later
    omega

/-- An advance to the start of a span and a partition at its stop single out what lies in the span
and has not been passed. -/
theorem window (splits : Splits entries bound cursor) (ascending : Ascending entries.toList)
    (start stop : Nat) :
    ∃ first passed, Ordered.advance entries start cursor = first ∧ first ≤ entries.size ∧
      Ordered.partitionPoint (entries.drop first) (fun entry => decide (key entry < stop)) =
        passed ∧
      ((entries.drop first).take passed).toList =
        entries.toList.filter (fun entry =>
          decide (key entry < stop) && decide (max bound start ≤ key entry)) ∧
      Splits entries (max (max bound start) stop) (first + passed) := by
  have first := splits.advance ascending start
  have rest_ascending : Ascending (entries.drop (Ordered.advance entries start cursor)).toList := by
    rw [toList_arrayDrop]
    exact List.Pairwise.sublist (List.drop_sublist _ _) ascending
  have rest := Splits.partitionPoint rest_ascending stop
  refine ⟨_, _, rfl, first.within, rfl, ?_, first.behind rest⟩
  rw [toList_arrayTake, rest.toList_take, toList_arrayDrop, first.toList_drop, List.filter_filter]

/-- Where no key equals the bound, the next bound splits at the same place. -/
theorem skip (splits : Splits entries bound cursor)
    (miss : ∀ position (inside : position < entries.size), key entries[position] ≠ bound) :
    Splits entries (bound + 1) cursor := by
  refine ⟨splits.within, fun position inside => ?_⟩
  have before := splits.before_iff position inside
  have := miss position inside
  omega

end Splits

/-- What a take delivers: the position of the sought key, unless no entry has it. -/
inductive Taken (entries : Array α) (sought : Nat) : Option Nat → Prop where
  | hit (position : Nat) (inside : position < entries.size)
      (found : key entries[position] = sought) : Taken entries sought (some position)
  | miss (absent : ∀ position (inside : position < entries.size),
      key entries[position] ≠ sought) : Taken entries sought none

/-- A take from a cursor that has not passed the sought key finds it if it is there. -/
theorem take_splits {entries : Array α} (ascending : Ascending entries.toList)
    {bound cursor sought : Nat} (splits : Splits entries bound cursor) (ahead : bound ≤ sought) :
    ∃ position after, take entries sought cursor = .ok (position, after) ∧
      Splits entries (sought + 1) after ∧ Taken entries sought position := by
  have advanced := splits.advance ascending sought
  rw [Nat.max_eq_right ahead] at advanced
  rw [take_eq]
  generalize advance entries sought cursor = stop at advanced
  by_cases hit : keyAt? entries stop = some sought
  · obtain ⟨inside, found⟩ : ∃ inside : stop < entries.size, key entries[stop] = sought := by
      by_cases inside : stop < entries.size
      · exact ⟨inside, by simpa [keyAt?, inside] using hit⟩
      · simp [keyAt?, Nat.not_lt.mp inside] at hit
    rw [if_pos hit]
    exact ⟨_, _, rfl, advanced.step ascending inside found, .hit stop inside found⟩
  · have absent : ∀ position (inside : position < entries.size),
        key entries[position] ≠ sought := by
      intro position inside found
      -- A hit is not passed, so the cursor stands before it on a key that is no smaller.
      have notPassed := (advanced.before_iff position inside).not.mpr (by omega)
      have within : stop < entries.size := by omega
      have reached := (advanced.before_iff stop within).not.mp (by omega)
      rcases Nat.lt_or_eq_of_le (Nat.not_lt.mp notPassed) with later | rfl
      · have := key_lt_of_lt ascending later inside
        omega
      · simp [keyAt?, inside, found] at hit
    rw [if_neg hit]
    exact ⟨_, _, rfl, advanced.skip absent, .miss absent⟩

/-- A cursor has passed no key from a position on. -/
def Awaits (entries : Array α) (position cursor : Nat) : Prop :=
  ∃ bound ≤ position, Splits entries bound cursor

namespace Awaits
variable {entries : Array α} {position cursor : Nat}

theorem zero (entries : Array α) (position : Nat) : Awaits entries position 0 :=
  ⟨0, Nat.zero_le _, .zero entries⟩

theorem later (awaits : Awaits entries position cursor) {other : Nat}
    (forward : position ≤ other) : Awaits entries other cursor := by
  obtain ⟨bound, before, splits⟩ := awaits
  exact ⟨bound, Nat.le_trans before forward, splits⟩

/-- A take finds an awaited key, and moves the cursor no further than past it. -/
theorem take (awaits : Awaits entries position cursor) (ascending : Ascending entries.toList)
    {sought : Nat} (ahead : position ≤ sought) :
    ∃ found after, Ordered.take entries sought cursor = .ok (found, after) ∧ cursor ≤ after ∧
      Awaits entries (sought + 1) after ∧ Taken entries sought found := by
  obtain ⟨bound, before, splits⟩ := awaits
  obtain ⟨found, after, taken, passed, delivers⟩ :=
    take_splits ascending splits (Nat.le_trans before ahead)
  refine ⟨found, after, taken, ?_, ⟨_, Nat.le_refl _, passed⟩, delivers⟩
  have reached := le_advance entries sought cursor
  rw [take_eq] at taken
  split at taken
  all_goals
    obtain ⟨-, rfl⟩ := Prod.mk.inj (Except.ok.inj taken)
    omega

/-- To pass a span that ends before the position is to pass nothing that is awaited. -/
theorem window (awaits : Awaits entries position cursor) (ascending : Ascending entries.toList)
    {start stop : Nat} (nonempty : start < stop) (behind : stop ≤ position) :
    Awaits entries position (advance entries start cursor + partitionPoint
      (entries.drop (advance entries start cursor)) fun entry => decide (key entry < stop)) := by
  obtain ⟨bound, before, splits⟩ := awaits
  obtain ⟨first, passed, rfl, -, rfl, -, after⟩ := splits.window ascending start stop
  exact ⟨_, by omega, after⟩

end Awaits

end BehaviorTree.Ordered

namespace BehaviorTree.Ordered
variable {α : Type} [Keyed α]

/-- What a take delivers is the position of the sought key. -/
theorem keyAt?_of_take {entries : Array α} {sought cursor position after : Nat}
    (taken : take entries sought cursor = .ok (some position, after)) :
    keyAt? entries position = some sought := by
  rw [take_eq] at taken
  split at taken
  · next hit =>
    obtain ⟨found, -⟩ := Prod.mk.inj (Except.ok.inj taken)
    rw [← Option.some.inj found]
    exact hit
  · cases taken

end BehaviorTree.Ordered

namespace BehaviorTree.SparseStates
open Ordered
variable {ν : Type}

/-- What a forward cursor reads of an atom is what a search of all entries finds. -/
theorem read_taken {states : SparseStates ν} (ascending : Ascending states.entries.toList)
    {atom : Nat} {position : Option Nat} (taken : Taken states.entries atom position) :
    (position.bind fun found => states.entries[found]?.map Entry.value) = states.find? atom := by
  cases taken with
  | hit position inside found =>
    have member : (⟨atom, states.entries[position].value⟩ : Entry ν) ∈ states.entries.toList := by
      rw [← found]
      exact Array.getElem_mem_toList inside
    rw [(find?_eq_some_iff ascending atom _).mpr member]
    simp [inside]
  | miss absent =>
    symm
    rw [Option.bind_none, find?_eq_none_iff ascending]
    intro entry member same
    obtain ⟨position, inside, rfl⟩ := List.getElem_of_mem member
    exact absent position inside same

end BehaviorTree.SparseStates

namespace BehaviorTree.Ordered

/-- A search of changed entries compares them as they are changed. -/
theorem search_map {α γ : Type} (change : α → γ) (entries : Array α) (compare : γ → Ordering) :
    search (entries.map change) compare = search entries fun entry => compare (change entry) := by
  have probes : probeAt (entries.map change) compare =
      probeAt entries fun entry => compare (change entry) := by
    funext position
    simp only [probeAt, Array.getElem?_map]
    cases entries[position]? <;> rfl
  simp only [search, probes, Array.isEmpty, Array.size_map]
  rfl

variable {α γ : Type} [Keyed α] [Keyed γ] {change : α → γ}
  (kept : ∀ entry, key (change entry) = key entry)
include kept

/-- Cursors see keys only. -/
theorem advance_map (entries : Array α) (sought cursor : Nat) :
    advance (entries.map change) sought cursor = advance entries sought cursor := by
  fun_induction advance entries sought cursor with
  | case1 cursor inside below ih =>
    rw [advance, dif_pos (by simpa using inside), if_pos (by simpa [kept] using below), ih]
  | case2 cursor inside reached =>
    rw [advance, dif_pos (by simpa using inside), if_neg (by simpa [kept] using reached)]
  | case3 cursor outside => rw [advance, dif_neg (by simpa using outside)]

theorem take_map (entries : Array α) (sought cursor : Nat) :
    take (entries.map change) sought cursor = take entries sought cursor := by
  have same (position : Nat) : keyAt? (entries.map change) position = keyAt? entries position := by
    simp only [keyAt?, Array.getElem?_map, Option.map_map]
    congr 1
    exact funext kept
  rw [take_eq, take_eq, advance_map kept, same]

theorem searchKey_map (entries : Array α) (sought : Nat) :
    searchKey (entries.map change) sought = searchKey entries sought := by
  rw [searchKey, search_map]
  simp only [kept]
  rfl

theorem partitionPoint_map (entries : Array α) (bound : Nat) :
    partitionPoint (entries.map change) (fun entry => decide (key entry < bound)) =
      partitionPoint entries fun entry => decide (key entry < bound) := by
  rw [partitionPoint, search_map]
  simp only [kept]
  rfl

end BehaviorTree.Ordered
