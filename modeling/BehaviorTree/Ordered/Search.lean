namespace BehaviorTree

/-- A value with an order key; arrays of such values are searched, scanned and sorted by the key. -/
class Keyed (α : Type) where
  key : α → Nat

export Keyed (key)

/-- An index is its own key. -/
instance : Keyed Nat := ⟨id⟩

/-- A value that belongs to the atom at an index. -/
structure Entry (ν : Type) where
  atom : Nat
  value : ν
  deriving DecidableEq, Repr, Inhabited

/-- The key of an entry is the index of its atom. -/
instance {ν : Type} : Keyed (Entry ν) := ⟨Entry.atom⟩

@[simp] theorem key_nat (index : Nat) : key index = index := rfl

@[simp] theorem key_entry {ν : Type} (entry : Entry ν) : key entry = entry.atom := rfl

/-- Each key lies below the next one. -/
def Ascending {α : Type} [Keyed α] (entries : List α) : Prop :=
  entries.Pairwise fun first second => key first < key second

instance {α : Type} [Keyed α] (entries : List α) : Decidable (Ascending entries) :=
  inferInstanceAs (Decidable (entries.Pairwise _))

namespace Ordered

/-- Where a value stands in an array, or where it would have to be inserted. -/
inductive Place where
  | found (position : Nat)
  | missing (position : Nat)
  deriving DecidableEq, Repr

/-- The search halves a window until one position is left, and moves to the upper half unless the
entry there lies above. The number of probes depends on the size alone: an equal entry does not end
the search early. -/
def narrow (probe : Nat → Ordering) (base size : Nat) : Nat :=
  if 1 < size then
    if probe (base + size / 2) = .gt then narrow probe base (size - size / 2)
    else narrow probe (base + size / 2) (size - size / 2)
  else base
termination_by size

/-- The search ends within its window. -/
theorem narrow_within (probe : Nat → Ordering) (base size : Nat) (used : 0 < size) :
    base ≤ narrow probe base size ∧ narrow probe base size < base + size := by
  fun_induction narrow probe base size with
  | case1 base size large above within =>
    have := within (by omega)
    omega
  | case2 base size large below within =>
    have := within (by omega)
    omega
  | case3 => omega

/-- The comparison of the entry at a position; past the end everything lies above. -/
def probeAt {α : Type} (entries : Array α) (compare : α → Ordering) (position : Nat) : Ordering :=
  match entries[position]? with
  | some entry => compare entry
  | none => .gt

/-- The place of the sought value, given how each entry compares with it. -/
def search {α : Type} (entries : Array α) (compare : α → Ordering) : Place :=
  if entries.isEmpty then .missing 0
  else
    let base := narrow (probeAt entries compare) 0 entries.size
    match probeAt entries compare base with
    | .eq => .found base
    | .lt => .missing (base + 1)
    | .gt => .missing base

/-- The place of a key. -/
def searchKey {α : Type} [Keyed α] (entries : Array α) (sought : Nat) : Place :=
  search entries fun entry => compare (key entry) sought

/-- The number of leading entries that satisfy a condition which no later entry satisfies. -/
def partitionPoint {α : Type} (entries : Array α) (leading : α → Bool) : Nat :=
  match search entries fun entry => if leading entry then .lt else .gt with
  | .found position | .missing position => position

end Ordered

end BehaviorTree
