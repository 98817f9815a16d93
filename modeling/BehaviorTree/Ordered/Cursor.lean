import BehaviorTree.Fault
import BehaviorTree.Ordered.Search

namespace BehaviorTree.Ordered
variable {α : Type} [Keyed α]

/-- The key at a position, if there is an entry. -/
def keyAt? (entries : Array α) (position : Nat) : Option Nat := entries[position]?.map key

/-- The first position, from the cursor on, whose key does not lie below the sought key. -/
def advance (entries : Array α) (sought cursor : Nat) : Nat :=
  if inside : cursor < entries.size then
    if key entries[cursor] < sought then advance entries sought (cursor + 1) else cursor
  else cursor
termination_by entries.size - cursor

/-- A cursor never moves back. -/
theorem le_advance (entries : Array α) (sought cursor : Nat) :
    cursor ≤ advance entries sought cursor := by
  fun_induction advance entries sought cursor with
  | case1 cursor inside below advanced => exact Nat.le_of_succ_le advanced
  | case2 => exact Nat.le_refl _
  | case3 => exact Nat.le_refl _

/-- A cursor within the array, or just behind it, stays there. -/
theorem advance_le_size (entries : Array α) (sought cursor : Nat)
    (within : cursor ≤ entries.size) : advance entries sought cursor ≤ entries.size := by
  fun_induction advance entries sought cursor with
  | case1 cursor inside below advanced => exact advanced inside
  | case2 => exact within
  | case3 => exact within

/-- The keys that a cursor passes lie below the sought key. -/
theorem key_lt_of_lt_advance (entries : Array α) (sought cursor position : Nat)
    (start : cursor ≤ position) (stop : position < advance entries sought cursor)
    (inside : position < entries.size) : key entries[position] < sought := by
  fun_induction advance entries sought cursor with
  | case1 cursor _ below advanced =>
    by_cases here : cursor = position
    · subst here
      exact below
    · exact advanced (by omega) stop
  | case2 => omega
  | case3 => omega

/-- A cursor stops at a key that does not lie below the sought key. -/
theorem le_key_advance (entries : Array α) (sought cursor : Nat)
    (inside : advance entries sought cursor < entries.size) :
    sought ≤ key entries[advance entries sought cursor] := by
  revert inside
  fun_induction advance entries sought cursor with
  | case1 cursor _ below advanced => exact advanced
  | case2 cursor _ reached => exact fun _ => Nat.le_of_not_lt reached
  | case3 cursor outside => exact fun inside => absurd inside outside

/-- A seek advances the cursor and tells whether it now stands on the sought key. -/
def seek (entries : Array α) (sought cursor : Nat) : Bool × Nat :=
  let cursor := advance entries sought cursor
  (keyAt? entries cursor == some sought, cursor)

/-- To consume a key is to step past it, so that it is never found again. -/
def consume (entries : Array α) (sought cursor : Nat) : Checked Nat :=
  if keyAt? entries cursor = some sought then .ok (cursor + 1) else .error .consumedWithoutHit

/-- A take is a seek that consumes what it hits; it delivers the entry's position. -/
def take (entries : Array α) (sought cursor : Nat) : Checked (Option Nat × Nat) :=
  match seek entries sought cursor with
  | (true, cursor) => do return (some cursor, ← consume entries sought cursor)
  | (false, cursor) => .ok (none, cursor)

/-- A take never breaks the precondition of its consumption. -/
theorem take_eq (entries : Array α) (sought cursor : Nat) :
    take entries sought cursor =
      .ok (if keyAt? entries (advance entries sought cursor) = some sought then
          (some (advance entries sought cursor), advance entries sought cursor + 1)
        else (none, advance entries sought cursor)) := by
  simp only [take, seek, consume]
  by_cases hit : keyAt? entries (advance entries sought cursor) = some sought
  · simp [hit, bind, Except.bind, pure, Except.pure]
  · have miss : (keyAt? entries (advance entries sought cursor) == some sought) = false := by
      simpa using hit
    simp [hit, miss]

end BehaviorTree.Ordered
