import BehaviorTree.Fault
import BehaviorTree.Ordered.Search

namespace BehaviorTree.Ordered

/-- Values of one type can be parked in slots of another and read back. Parking may leave a part of
the slot as it was. -/
class Parking (α σ : Type) where
  parkIn : σ → α → σ
  parked : σ → α

/-- A value parked in a slot that is not in use. -/
def Parking.park {α σ : Type} [Inhabited σ] [Parking α σ] (value : α) : σ :=
  parkIn (default : σ) value

/-- A value parks in a slot of its own type. -/
instance (priority := low) {α : Type} : Parking α α := ⟨fun _ value => value, id⟩

/-- What is parked is read back, whatever the slot held. -/
class LawfulParking (α σ : Type) [Parking α σ] : Prop where
  parked_parkIn (slot : σ) (value : α) : Parking.parked (Parking.parkIn slot value) = value

instance {α : Type} : LawfulParking α α := ⟨fun _ _ => rfl⟩

/-- The entries while output is written over them from the back: positions from `write` on hold
output. -/
structure Output (α : Type) where
  entries : Array α
  write : Nat
  ascending : Bool

/-- The result of a reorder: the entries, the slots with what was parked in them last, and whether
the stack alone was enough. -/
structure Reordered (α σ : Type) where
  entries : Array α
  slots : Array σ
  linear : Bool

variable {α σ : Type} [Keyed α] [Parking α σ]

/-- A read within bounds. -/
def readAt {β : Type} (values : Array β) (position : Nat) : Checked β :=
  match values[position]? with
  | some value => .ok value
  | none => .error .outOfBounds

/-- A write within bounds. -/
def writeAt {β : Type} (values : Array β) (position : Nat) (value : β) : Checked (Array β) :=
  if inside : position < values.size then .ok (values.set position value inside)
  else .error .outOfBounds

/-- The next smaller entry of the output is written in front of the output. -/
def Output.place (output : Output α) (entry : α) : Checked (Output α) := do
  if output.write = 0 then throw .outOfBounds
  let entries ← writeAt output.entries (output.write - 1) entry
  return {
    entries
    write := output.write - 1
    ascending := output.ascending &&
      match entries[output.write]? with
      | some next => decide (key entry < key next)
      | none => true }

/-- Held entries leave the stack into the output, from the top, while their keys satisfy the
condition. -/
def release (leaves : Nat → Bool) (slots : Array σ) :
    Nat → Output α → Checked (Nat × Output α)
  | 0, output => .ok (0, output)
  | held + 1, output => do
    let entry : α := Parking.parked (← readAt slots held)
    if leaves (key entry) then release leaves slots held (← output.place entry)
    else return (held + 1, output)

/-- The general sort by key. -/
def sortByKey (entries : Array α) : Array α :=
  (entries.toList.mergeSort fun first second => decide (key first ≤ key second)).toArray

/-- The held entries go back behind the unread ones, oldest first. -/
def unpark (slots : Array σ) (start : Nat) : Nat → Array α → Checked (Array α)
  | 0, entries => .ok entries
  | held + 1, entries => do
    let entries ← unpark slots start held entries
    writeAt entries (start + held) (Parking.parked (← readAt slots held))

/-- The scan reads the entries below the given position from the back. In an emission in post-order
an entry is preceded only by its ancestors and by later subtrees, so a stack of the ancestors at
hand is enough to write the entries from largest to smallest. Where the stack is too short, or the
output does not ascend, the given sort takes over. -/
def scan (sort : Array α → Array α) : Nat → Array σ → Nat → Output α → Checked (Reordered α σ)
  | 0, slots, held, output => do
    let (_, output) ← release (fun _ => true) slots held output
    require (output.write == 0) .unfilledOutput
    let entries := if output.ascending then output.entries else sort output.entries
    return { entries, slots, linear := output.ascending }
  | position + 1, slots, held, output => do
    let current ← readAt output.entries position
    let (held, output) ← release (fun above => decide (key current < above)) slots held output
    if held = slots.size then
      let entries ← unpark slots position held output.entries
      let entries ← writeAt entries (position + held) current
      return { entries := sort entries, slots, linear := false }
    let slots ← writeAt slots held (Parking.parkIn (← readAt slots held) current)
    scan sort position slots (held + 1) output

/-- The entries in ascending order of their keys, with the slots as the stack and the given sort
where the stack does not do. -/
def reorderWith (sort : Array α → Array α) (entries : Array α) (slots : Array σ) :
    Checked (Reordered α σ) :=
  scan sort entries.size slots 0 { entries, write := entries.size, ascending := true }

/-- The entries in ascending order of their keys, with the slots as the stack. -/
def reorder (entries : Array α) (slots : Array σ) : Checked (Reordered α σ) :=
  reorderWith sortByKey entries slots

end BehaviorTree.Ordered
