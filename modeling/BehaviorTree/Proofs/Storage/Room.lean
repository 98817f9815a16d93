import BehaviorTree.Machine.Request
import BehaviorTree.Storage.Buffer

namespace BehaviorTree

namespace Buffer
variable {α : Type} {buffer : Buffer α}

theorem length_contents (buffer : Buffer α) : buffer.contents.toList.length = buffer.count := by
  rw [Array.length_toList, size_contents]

@[simp] theorem capacity_clear (buffer : Buffer α) : buffer.clear.capacity = buffer.capacity := rfl

@[simp] theorem capacity_empty (capacity : Nat) (fill : α) :
    (empty capacity fill).capacity = capacity := rfl

theorem isEmpty_iff (buffer : Buffer α) : buffer.isEmpty = true ↔ buffer.contents.toList = [] := by
  rw [← List.length_eq_zero_iff, length_contents]
  simp [isEmpty, StackCounter.isEmpty, count]

theorem isFull_eq_false (room : buffer.count < buffer.capacity) : buffer.isFull = false := by
  simp only [isFull, StackCounter.isFull, beq_eq_false_iff_ne]
  exact Nat.ne_of_lt room

/-- Where there is room, a push adds the value behind the others. -/
theorem push_room (room : buffer.count < buffer.capacity) (value : α) :
    ∃ after, buffer.push value = .ok after ∧
      after.contents.toList = buffer.contents.toList ++ [value] ∧
      after.capacity = buffer.capacity := by
  have room : buffer.counter.count < buffer.counter.capacity := room
  have pushed : buffer.push value = .ok ⟨buffer.slots.set buffer.counter.count value
      (buffer.sized ▸ room), buffer.counter.grow room, by simp [buffer.sized]⟩ := dif_pos room
  refine ⟨_, pushed, ?_, rfl⟩
  rw [contents_push pushed, Array.toList_push]

/-- A truncation that does not grow keeps the first values. -/
theorem truncate_shrink {size : Nat} (shrinks : size ≤ buffer.contents.toList.length) :
    ∃ after, buffer.truncate size = .ok after ∧
      after.contents.toList = buffer.contents.toList.take size ∧
      after.capacity = buffer.capacity := by
  rw [length_contents] at shrinks
  have truncated : buffer.truncate size = .ok { buffer with counter := buffer.counter.cut size } :=
    if_pos shrinks
  refine ⟨_, truncated, ?_, rfl⟩
  rw [contents_truncate truncated, Array.take_eq_extract, Array.toList_extract]
  simp

/-- The value that was pushed last is on top. -/
theorem top?_last {rest : List α} {value : α} (held : buffer.contents.toList = rest ++ [value]) :
    buffer.top? = some value := by
  rw [top?_eq_back?, ← Array.getLast?_toList, held, List.getLast?_concat]

/-- What is on top was pushed last. -/
theorem exists_rest {value : α} (top : buffer.top? = some value) :
    ∃ rest, buffer.contents.toList = rest ++ [value] := by
  rw [top?_eq_back?, ← Array.getLast?_toList] at top
  exact List.getLast?_eq_some_iff.mp top

theorem top?_empty (held : buffer.contents.toList = []) : buffer.top? = none := by
  rw [top?_eq_back?, ← Array.getLast?_toList, held, List.getLast?_nil]

/-- A pop takes the last value away. -/
theorem pop_last {rest : List α} {value : α} (held : buffer.contents.toList = rest ++ [value]) :
    ∃ after, buffer.pop = .ok (value, after) ∧ after.contents.toList = rest ∧
      after.capacity = buffer.capacity := by
  have popped : buffer.pop =
      .ok (value, { buffer with counter := buffer.counter.cut (buffer.count - 1) }) := by
    simp only [pop, top?_last held]
  refine ⟨_, popped, ?_, rfl⟩
  have whole := congrArg Array.toList (contents_pop popped)
  rw [held, Array.toList_push] at whole
  exact (List.append_cancel_right whole).symm

/-- The last value is replaced. -/
theorem setTop_last {rest : List α} {value : α} (held : buffer.contents.toList = rest ++ [value])
    (other : α) :
    (buffer.setTop other).contents.toList = rest ++ [other] ∧
      (buffer.setTop other).capacity = buffer.capacity := by
  have count : buffer.count = rest.length + 1 := by
    rw [← length_contents, held, List.length_append, List.length_singleton]
  have used : buffer.counter.count ≠ 0 := by
    change buffer.count ≠ 0
    omega
  have position : buffer.counter.top? = some rest.length := by
    simp only [StackCounter.top?, if_neg used, Option.some.injEq]
    change buffer.count - 1 = rest.length
    omega
  have replaced : buffer.setTop other = { buffer with
      slots := buffer.slots.setIfInBounds rest.length other
      sized := by simp [buffer.sized] } := by
    simp only [setTop, position]
  rw [replaced]
  refine ⟨?_, rfl⟩
  have stored : buffer.contents.toList = buffer.slots.toList.take (rest.length + 1) := by
    simp [contents, count]
  rw [held] at stored
  have after : (buffer.slots.setIfInBounds rest.length other).toList.take (rest.length + 1) =
      rest ++ [other] := by
    rw [Array.toList_setIfInBounds, List.take_set, ← stored]
    simp
  rw [← count] at after
  simpa [contents, Buffer.count] using after

/-- Storage in which nothing is held may be lent. -/
theorem lend_empty (held : buffer.contents.toList = []) : buffer.lend = .ok buffer.slots := by
  simp only [lend, (isEmpty_iff buffer).mpr held, if_true]

@[simp] theorem capacity_restore (buffer : Buffer α) (slots : Array α) :
    (buffer.restore slots).capacity = buffer.capacity := by
  unfold restore
  split <;> rfl

@[simp] theorem capacity_overwrite (buffer : Buffer α) (values : Array α) :
    (buffer.overwrite values).capacity = buffer.capacity :=
  capacity_restore buffer _

/-- As many values as are held take their place. -/
theorem contents_overwrite {values : Array α} (same : values.size = buffer.count) :
    (buffer.overwrite values).contents.toList = values.toList := by
  have within := buffer.count_le_size
  have size : (values ++ buffer.slots.drop values.size).size = buffer.slots.size := by
    simp
    omega
  have overwritten : buffer.overwrite values = { buffer with
      slots := values ++ buffer.slots.drop values.size
      sized := size.trans buffer.sized } := dif_pos size
  have split : (values ++ buffer.slots.drop values.size).toList =
      values.toList ++ buffer.slots.toList.drop values.size := by
    simp [List.take_of_length_le]
  rw [overwritten, contents, Array.take_eq_extract, Array.toList_extract]
  change (List.drop 0 (values ++ buffer.slots.drop values.size).toList).take (buffer.count - 0) = _
  rw [split, List.drop_zero, Nat.sub_zero, ← same, ← Array.length_toList, List.take_left]

end Buffer

namespace RequestQueue
variable {queue : RequestQueue}

def capacity (queue : RequestQueue) : Nat := queue.sides.capacity

@[simp] theorem capacity_clear (queue : RequestQueue) : queue.clear.capacity = queue.capacity := rfl

@[simp] theorem capacity_empty (size : Nat) : (empty size).capacity = size := rfl

theorem length_lists (queue : RequestQueue) :
    queue.launches.toList.length + queue.cancels.toList.length = queue.count := by
  simp [launchCount, cancelCount, count, TwoSidedCounter.count]

/-- Where there is room, a launch goes behind the others. -/
theorem pushLaunch_room (room : queue.count < queue.capacity) (request : Request) :
    ∃ after, queue.pushLaunch request = .ok after ∧
      after.launches.toList = queue.launches.toList ++ [request] ∧
      after.cancels = queue.cancels ∧ after.capacity = queue.capacity := by
  have room : queue.sides.count < queue.sides.capacity := room
  have pushed : queue.pushLaunch request = .ok ⟨queue.slots.setIfInBounds queue.sides.low request,
      queue.sides.growLow room, by simp [queue.sized]⟩ := dif_pos room
  obtain ⟨launches, cancels⟩ := pushLaunch_lists pushed
  exact ⟨_, pushed, by rw [launches, Array.toList_push], cancels, rfl⟩

/-- Where there is room, a cancel goes in front of the others. -/
theorem pushCancel_room (room : queue.count < queue.capacity) (request : Request) :
    ∃ after, queue.pushCancel request = .ok after ∧ after.launches = queue.launches ∧
      after.cancels.toList = request :: queue.cancels.toList ∧
      after.capacity = queue.capacity := by
  have room : queue.sides.count < queue.sides.capacity := room
  have pushed : queue.pushCancel request =
      .ok ⟨queue.slots.setIfInBounds (queue.sides.topHigh - 1) request,
        queue.sides.growHigh room, by simp [queue.sized]⟩ := dif_pos room
  obtain ⟨launches, cancels⟩ := pushCancel_lists pushed
  exact ⟨_, pushed, launches, by simp [cancels], rfl⟩

/-- A truncation that does not grow keeps the first launches. -/
theorem truncateLaunches_shrink {size : Nat} (shrinks : size ≤ queue.launches.toList.length) :
    ∃ after, queue.truncateLaunches size = .ok after ∧
      after.launches.toList = queue.launches.toList.take size ∧
      after.cancels = queue.cancels ∧ after.capacity = queue.capacity := by
  have fits : size ≤ queue.sides.low := by simpa [launchCount] using shrinks
  have truncated : queue.truncateLaunches size =
      .ok { queue with sides := queue.sides.cutLow size } := if_pos fits
  obtain ⟨launches, cancels⟩ := truncateLaunches_lists truncated
  refine ⟨_, truncated, ?_, cancels, rfl⟩
  rw [launches, Array.take_eq_extract, Array.toList_extract]
  simp

end RequestQueue

end BehaviorTree
