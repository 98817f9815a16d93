import BehaviorTree.Fault

namespace BehaviorTree

/-- A count of used slots that grows from position zero upward. -/
structure StackCounter where
  capacity : Nat
  count : Nat
  within : count ≤ capacity
  deriving DecidableEq

namespace StackCounter

def empty (capacity : Nat) : StackCounter := ⟨capacity, 0, Nat.zero_le capacity⟩

def isEmpty (counter : StackCounter) : Bool := counter.count == 0

def isFull (counter : StackCounter) : Bool := counter.count == counter.capacity

/-- The position of the top slot, if one is used. -/
def top? (counter : StackCounter) : Option Nat :=
  if counter.count = 0 then none else some (counter.count - 1)

/-- The counter after one more slot is taken. -/
def grow (counter : StackCounter) (room : counter.count < counter.capacity) : StackCounter :=
  { counter with count := counter.count + 1, within := room }

/-- The counter cut to the first slots. -/
def cut (counter : StackCounter) (count : Nat) : StackCounter :=
  { counter with
    count := min count counter.count
    within := Nat.le_trans (Nat.min_le_right _ _) counter.within }

/-- A push delivers the position of the new slot. -/
def push (counter : StackCounter) : Checked (Nat × StackCounter) :=
  if room : counter.count < counter.capacity then .ok (counter.count, counter.grow room)
  else .error .fullStorage

/-- A pop delivers the position of the slot that is vacated. -/
def pop (counter : StackCounter) : Checked (Nat × StackCounter) :=
  if counter.count = 0 then .error .emptyStorage
  else .ok (counter.count - 1, counter.cut (counter.count - 1))

/-- A truncation keeps the first slots and may only shrink. -/
def truncate (counter : StackCounter) (count : Nat) : Checked StackCounter :=
  if count ≤ counter.count then .ok (counter.cut count) else .error .growingTruncation

def clear (counter : StackCounter) : StackCounter := counter.cut 0

@[simp] theorem empty_capacity (capacity : Nat) : (empty capacity).capacity = capacity := rfl

@[simp] theorem grow_capacity (counter : StackCounter) (room : counter.count < counter.capacity) :
    (counter.grow room).capacity = counter.capacity := rfl

@[simp] theorem grow_count (counter : StackCounter) (room : counter.count < counter.capacity) :
    (counter.grow room).count = counter.count + 1 := rfl

@[simp] theorem cut_capacity (counter : StackCounter) (count : Nat) :
    (counter.cut count).capacity = counter.capacity := rfl

@[simp] theorem cut_count (counter : StackCounter) (count : Nat) :
    (counter.cut count).count = min count counter.count := rfl

@[simp] theorem clear_capacity (counter : StackCounter) :
    counter.clear.capacity = counter.capacity := rfl

@[simp] theorem clear_count (counter : StackCounter) : counter.clear.count = 0 :=
  Nat.zero_min _

end StackCounter

end BehaviorTree
