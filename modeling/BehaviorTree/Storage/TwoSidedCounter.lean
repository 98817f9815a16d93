import BehaviorTree.Fault

namespace BehaviorTree

/-- The counts of the two sides, which together fit the storage: the low side grows from position
zero upward and the high side from the last position downward. -/
structure TwoSidedCounter where
  capacity : Nat
  low : Nat
  high : Nat
  within : low + high ≤ capacity
  deriving DecidableEq

namespace TwoSidedCounter

def empty (capacity : Nat) : TwoSidedCounter := ⟨capacity, 0, 0, Nat.zero_le capacity⟩

def count (counter : TwoSidedCounter) : Nat := counter.low + counter.high

def isEmpty (counter : TwoSidedCounter) : Bool := counter.low == 0 && counter.high == 0

def isFull (counter : TwoSidedCounter) : Bool := counter.count == counter.capacity

/-- The position of the top slot of the low side, if one is used. -/
def topLow? (counter : TwoSidedCounter) : Option Nat :=
  if counter.low = 0 then none else some (counter.low - 1)

/-- The first position of the high side, which is the capacity while that side is empty. -/
def topHigh (counter : TwoSidedCounter) : Nat := counter.capacity - counter.high

/-- The counter after one more low slot is taken. -/
def growLow (counter : TwoSidedCounter) (room : counter.count < counter.capacity) :
    TwoSidedCounter :=
  { counter with low := counter.low + 1, within := by simp only [count] at room; omega }

/-- The counter after one more high slot is taken. -/
def growHigh (counter : TwoSidedCounter) (room : counter.count < counter.capacity) :
    TwoSidedCounter :=
  { counter with high := counter.high + 1, within := by simp only [count] at room; omega }

/-- The counter whose low side is cut to the slots that were taken first. -/
def cutLow (counter : TwoSidedCounter) (count : Nat) : TwoSidedCounter :=
  { counter with low := min count counter.low, within := by have := counter.within; omega }

/-- The counter whose high side is cut to the slots that were taken first. -/
def cutHigh (counter : TwoSidedCounter) (count : Nat) : TwoSidedCounter :=
  { counter with high := min count counter.high, within := by have := counter.within; omega }

/-- A low push delivers the position just above the low side. -/
def pushLow (counter : TwoSidedCounter) : Checked (Nat × TwoSidedCounter) :=
  if room : counter.count < counter.capacity then .ok (counter.low, counter.growLow room)
  else .error .fullStorage

/-- A high push delivers the position just below the high side. -/
def pushHigh (counter : TwoSidedCounter) : Checked (Nat × TwoSidedCounter) :=
  if room : counter.count < counter.capacity then .ok (counter.topHigh - 1, counter.growHigh room)
  else .error .fullStorage

/-- A low pop delivers the position of the slot that is vacated. -/
def popLow (counter : TwoSidedCounter) : Checked (Nat × TwoSidedCounter) :=
  if counter.low = 0 then .error .emptyStorage
  else .ok (counter.low - 1, counter.cutLow (counter.low - 1))

/-- A high pop delivers the position of the slot that is vacated. -/
def popHigh (counter : TwoSidedCounter) : Checked (Nat × TwoSidedCounter) :=
  if counter.high = 0 then .error .emptyStorage
  else .ok (counter.topHigh, counter.cutHigh (counter.high - 1))

/-- A truncation of the low side may only shrink it. -/
def truncateLow (counter : TwoSidedCounter) (count : Nat) : Checked TwoSidedCounter :=
  if count ≤ counter.low then .ok (counter.cutLow count) else .error .growingTruncation

/-- A truncation of the high side may only shrink it. -/
def truncateHigh (counter : TwoSidedCounter) (count : Nat) : Checked TwoSidedCounter :=
  if count ≤ counter.high then .ok (counter.cutHigh count) else .error .growingTruncation

def clear (counter : TwoSidedCounter) : TwoSidedCounter := (counter.cutLow 0).cutHigh 0

@[simp] theorem empty_capacity (capacity : Nat) : (empty capacity).capacity = capacity := rfl

@[simp] theorem growLow_capacity (counter : TwoSidedCounter)
    (room : counter.count < counter.capacity) :
    (counter.growLow room).capacity = counter.capacity := rfl

@[simp] theorem growHigh_capacity (counter : TwoSidedCounter)
    (room : counter.count < counter.capacity) :
    (counter.growHigh room).capacity = counter.capacity := rfl

@[simp] theorem cutLow_capacity (counter : TwoSidedCounter) (count : Nat) :
    (counter.cutLow count).capacity = counter.capacity := rfl

@[simp] theorem cutHigh_capacity (counter : TwoSidedCounter) (count : Nat) :
    (counter.cutHigh count).capacity = counter.capacity := rfl

@[simp] theorem clear_capacity (counter : TwoSidedCounter) :
    counter.clear.capacity = counter.capacity := rfl

end TwoSidedCounter

end BehaviorTree
