import BehaviorTree.Storage.StackCounter

namespace BehaviorTree

/-- Storage of a fixed size, used from position zero up to the count. Values above the count are
stale and show only when idle storage is lent. -/
structure Buffer (α : Type) where
  slots : Array α
  counter : StackCounter
  sized : slots.size = counter.capacity

namespace Buffer
variable {α : Type}

/-- Empty storage whose slots all hold the fill value. -/
def empty (capacity : Nat) (fill : α) : Buffer α :=
  ⟨Array.replicate capacity fill, .empty capacity, by simp⟩

def capacity (buffer : Buffer α) : Nat := buffer.counter.capacity

def count (buffer : Buffer α) : Nat := buffer.counter.count

def isEmpty (buffer : Buffer α) : Bool := buffer.counter.isEmpty

def isFull (buffer : Buffer α) : Bool := buffer.counter.isFull

/-- The values that the buffer holds, oldest first. -/
def contents (buffer : Buffer α) : Array α := buffer.slots.take buffer.count

def push (buffer : Buffer α) (value : α) : Checked (Buffer α) :=
  if room : buffer.counter.count < buffer.counter.capacity then
    .ok ⟨buffer.slots.set buffer.counter.count value (buffer.sized ▸ room),
      buffer.counter.grow room, by simp [buffer.sized]⟩
  else .error .fullStorage

/-- The value on top, if there is one. -/
def top? (buffer : Buffer α) : Option α :=
  match buffer.counter.top? with
  | some position => buffer.slots[position]?
  | none => none

/-- A pop delivers the value that leaves, which stays in its slot as a stale value. -/
def pop (buffer : Buffer α) : Checked (α × Buffer α) :=
  match buffer.top? with
  | some value => .ok (value, { buffer with counter := buffer.counter.cut (buffer.count - 1) })
  | none => .error .emptyStorage

/-- The value on top is replaced; an empty buffer stays as it is. -/
def setTop (buffer : Buffer α) (value : α) : Buffer α :=
  match buffer.counter.top? with
  | some position =>
      { buffer with
        slots := buffer.slots.setIfInBounds position value
        sized := by simp [buffer.sized] }
  | none => buffer

def truncate (buffer : Buffer α) (count : Nat) : Checked (Buffer α) :=
  if count ≤ buffer.counter.count then .ok { buffer with counter := buffer.counter.cut count }
  else .error .growingTruncation

def clear (buffer : Buffer α) : Buffer α := { buffer with counter := buffer.counter.clear }

/-- The whole storage, stale values included, which may be lent only while nothing is held. -/
def lend (buffer : Buffer α) : Checked (Array α) :=
  if buffer.isEmpty then .ok buffer.slots else .error .busyStorage

/-- New storage takes the place of the old if it has the same size; the count stays. -/
def restore (buffer : Buffer α) (slots : Array α) : Buffer α :=
  if same : slots.size = buffer.slots.size then
    { buffer with slots, sized := same.trans buffer.sized }
  else buffer

/-- The held values are replaced by as many others. -/
def overwrite (buffer : Buffer α) (values : Array α) : Buffer α :=
  buffer.restore (values ++ buffer.slots.drop values.size)

theorem count_le_size (buffer : Buffer α) : buffer.count ≤ buffer.slots.size := by
  rw [buffer.sized]
  exact buffer.counter.within

@[simp] theorem size_contents (buffer : Buffer α) : buffer.contents.size = buffer.count := by
  have := buffer.count_le_size
  simp only [contents, Array.take_eq_extract, Array.size_extract]
  omega

@[simp] theorem contents_empty (capacity : Nat) (fill : α) :
    (empty capacity fill).contents = #[] := by
  simp [contents, empty, count, StackCounter.empty]

@[simp] theorem contents_clear (buffer : Buffer α) : buffer.clear.contents = #[] := by
  simp [contents, clear, count]

/-- A push adds the value behind the others. -/
theorem contents_push {buffer after : Buffer α} {value : α}
    (pushed : buffer.push value = .ok after) :
    after.contents = buffer.contents.push value := by
  unfold push at pushed
  split at pushed
  · next room =>
    obtain rfl := Except.ok.inj pushed
    have room : buffer.counter.count < buffer.slots.toList.length := by
      simpa [buffer.sized] using room
    apply Array.ext'
    simp [contents, count, List.take_add_one, List.take_set_of_le,
      List.getElem?_set_self room]
  · cases pushed

/-- A truncation keeps the values that were pushed first. -/
theorem contents_truncate {buffer after : Buffer α} {count : Nat}
    (truncated : buffer.truncate count = .ok after) :
    after.contents = buffer.contents.take count := by
  unfold truncate at truncated
  split at truncated
  · next shrinks =>
    obtain rfl := Except.ok.inj truncated
    simp [contents, Buffer.count]
  · cases truncated

/-- The value on top is the last one. -/
theorem top?_eq_back? (buffer : Buffer α) : buffer.top? = buffer.contents.back? := by
  have within := buffer.count_le_size
  rw [Array.back?, size_contents]
  unfold top? StackCounter.top?
  split
  · next position hit =>
    split at hit
    · cases hit
    · next used =>
      obtain rfl := Option.some.inj hit
      have inside : buffer.count - 1 < buffer.count := by
        simp only [count]
        omega
      rw [contents, Array.take_eq_extract, Array.getElem?_extract]
      simp [count] at inside within ⊢
      omega
  · next miss =>
    split at miss
    · next none => simp [count, none]
    · cases miss

/-- A pop takes the last value away. -/
theorem contents_pop {buffer after : Buffer α} {value : α}
    (popped : buffer.pop = .ok (value, after)) :
    buffer.contents = after.contents.push value := by
  unfold pop at popped
  split at popped
  · next top hit =>
    obtain ⟨rfl, rfl⟩ := Prod.mk.inj (Except.ok.inj popped)
    rw [top?_eq_back?] at hit
    have within := buffer.count_le_size
    obtain ⟨below, split⟩ := Array.back?_eq_some_iff.mp hit
    have shorter : contents { buffer with counter := buffer.counter.cut (buffer.count - 1) } =
        buffer.contents.pop := by
      apply Array.ext'
      have length : (buffer.slots.toList.take buffer.count).length = buffer.count := by
        rw [List.length_take, Array.length_toList]
        omega
      have toList_take (count : Nat) :
          (buffer.slots.take count).toList = buffer.slots.toList.take count := by simp
      rw [Array.toList_pop, contents, contents, toList_take, toList_take, List.dropLast_eq_take,
        length, List.take_take]
      congr 1
    rw [shorter, split, Array.pop_push]
  · cases popped

end Buffer

end BehaviorTree
