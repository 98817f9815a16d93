import BehaviorTree.Proofs.Storage.Outcomes

namespace BehaviorTree

namespace Checked
variable {α γ : Type}

/-- Two computations have the same fault, or both have an outcome and the outcomes are related. -/
def SameOutcome (first : Checked α) (second : Checked γ) (related : α → γ → Prop) : Prop :=
  match first, second with
  | .ok value, .ok other => related value other
  | .error fault, .error other => fault = other
  | _, _ => False

theorem SameOutcome.bind {δ ε : Type} {first : Checked α} {second : Checked γ}
    {related : α → γ → Prop} {next : α → Checked δ} {later : γ → Checked ε} {also : δ → ε → Prop}
    (same : SameOutcome first second related)
    (rest : ∀ value other, related value other → SameOutcome (next value) (later other) also) :
    SameOutcome (first >>= next) (second >>= later) also := by
  cases first with
  | ok value =>
    cases second with
    | ok other => exact rest value other same
    | error fault => exact same.elim
  | error fault =>
    cases second with
    | ok other => exact same.elim
    | error other => exact same

theorem SameOutcome.mono {first : Checked α} {second : Checked γ} {related also : α → γ → Prop}
    (same : SameOutcome first second related) (weaken : ∀ value other, related value other →
      also value other) : SameOutcome first second also := by
  cases first with
  | ok value =>
    cases second with
    | ok other => exact weaken value other same
    | error fault => exact same.elim
  | error fault =>
    cases second with
    | ok other => exact same.elim
    | error other => exact same

end Checked

open Checked

/-- One side of a storage. -/
inductive Side where
  | low
  | high
  deriving DecidableEq

/-- What the two sides hold, in the order in which it came. -/
structure TwoLists (α : Type) where
  low : List α := []
  high : List α := []
  deriving DecidableEq

namespace TwoLists
variable {α : Type}

def get (lists : TwoLists α) : Side → List α
  | .low => lists.low
  | .high => lists.high

/-- One of the lists is changed. -/
def alter (lists : TwoLists α) (change : List α → List α) : Side → TwoLists α
  | .low => { lists with low := change lists.low }
  | .high => { lists with high := change lists.high }

def count (lists : TwoLists α) : Nat := lists.low.length + lists.high.length

/-- To drop the last value of a list is to keep the others. -/
theorem alter_dropLast (lists : TwoLists α) (side : Side) :
    lists.alter List.dropLast side =
      lists.alter (List.take ((lists.get side).length - 1)) side := by
  cases side <;> simp [alter, get, List.dropLast_eq_take]

end TwoLists

/-! ## Slots -/

/-- A call of a counter with two sides. -/
inductive SlotCall where
  | push (side : Side)
  | pop (side : Side)
  | truncate (side : Side) (count : Nat)
  | clear

namespace SlotCall

/-- A counter takes a call; pushes and pops answer with a slot. -/
def onCounter (counter : TwoSidedCounter) : SlotCall → Checked (Option Nat × TwoSidedCounter)
  | push .low => counter.pushLow.map fun (slot, after) => (some slot, after)
  | push .high => counter.pushHigh.map fun (slot, after) => (some slot, after)
  | pop .low => counter.popLow.map fun (slot, after) => (some slot, after)
  | pop .high => counter.popHigh.map fun (slot, after) => (some slot, after)
  | truncate .low count => (counter.truncateLow count).map fun after => (none, after)
  | truncate .high count => (counter.truncateHigh count).map fun after => (none, after)
  | clear => .ok (none, counter.clear)

/-- The slots in use after a call that gave an answer: a push adds the slot that it answers, and a
pop takes the one away that came last. -/
def slotsAfter (slots : TwoLists Nat) (answer : Option Nat) : SlotCall → TwoLists Nat
  | push side => slots.alter (· ++ answer.toList) side
  | pop side => slots.alter List.dropLast side
  | truncate side count => slots.alter (List.take count) side
  | clear => {}

/-- A call whose precondition holds is answered: a push with a slot of the storage that is not in
use, and a pop with the slot of its side that was pushed last. -/
def Lawful (capacity : Nat) (slots : TwoLists Nat)
    (outcome : Checked (Option Nat × TwoSidedCounter)) : SlotCall → Prop
  | push _ =>
      if slots.count < capacity then
        ∃ slot after, outcome = .ok (some slot, after) ∧
          slot < capacity ∧ slot ∉ slots.low ∧ slot ∉ slots.high
      else outcome = .error .fullStorage
  | pop side =>
      match (slots.get side).getLast? with
      | some slot => ∃ after, outcome = .ok (some slot, after)
      | none => outcome = .error .emptyStorage
  | truncate side count =>
      if count ≤ (slots.get side).length then ∃ after, outcome = .ok (none, after)
      else outcome = .error .growingTruncation
  | clear => ∃ after, outcome = .ok (none, after)

/-- Calls are taken one after the other, and the slots in use are kept beside the counter. -/
def takeAll : List SlotCall → TwoSidedCounter → TwoLists Nat →
    Checked (TwoSidedCounter × TwoLists Nat)
  | [], counter, slots => .ok (counter, slots)
  | call :: calls, counter, slots => do
      let (answer, after) ← call.onCounter counter
      takeAll calls after (call.slotsAfter slots answer)

end SlotCall

namespace TwoSidedCounter
variable {counter : TwoSidedCounter} {slots : TwoLists Nat}

/-! ### Both sides alike -/

/-- How many slots of a side are in use. -/
def held (counter : TwoSidedCounter) : Side → Nat
  | .low => counter.low
  | .high => counter.high

/-- The slot at a place of a side, counted from the end of the storage where that side begins. -/
def slotAt (counter : TwoSidedCounter) : Side → Nat → Nat
  | .low, place => place
  | .high, place => counter.capacity - 1 - place

/-- The counter after one more slot of a side is taken. -/
def grow (counter : TwoSidedCounter) (room : counter.count < counter.capacity) :
    Side → TwoSidedCounter
  | .low => counter.growLow room
  | .high => counter.growHigh room

/-- The counter whose side is cut to the slots that were taken first. -/
def cut (counter : TwoSidedCounter) (count : Nat) : Side → TwoSidedCounter
  | .low => counter.cutLow count
  | .high => counter.cutHigh count

theorem onCounter_push (counter : TwoSidedCounter) (side : Side) :
    (SlotCall.push side).onCounter counter =
      if room : counter.count < counter.capacity then
        .ok (some (counter.slotAt side (counter.held side)), counter.grow room side)
      else .error .fullStorage := by
  by_cases room : counter.count < counter.capacity
  · cases side with
    | low =>
      simp only [SlotCall.onCounter, pushLow, dif_pos room]
      rfl
    | high =>
      have same : counter.topHigh - 1 = counter.slotAt .high counter.high := by
        simp only [topHigh, slotAt]
        omega
      simp only [SlotCall.onCounter, pushHigh, dif_pos room, same]
      rfl
  · cases side <;> simp only [SlotCall.onCounter, pushLow, pushHigh, dif_neg room] <;> rfl

theorem onCounter_pop (counter : TwoSidedCounter) (side : Side) :
    (SlotCall.pop side).onCounter counter =
      if counter.held side = 0 then .error .emptyStorage
      else .ok (some (counter.slotAt side (counter.held side - 1)),
        counter.cut (counter.held side - 1) side) := by
  have within := counter.within
  by_cases empty : counter.held side = 0
  · rw [if_pos empty]
    cases side <;> exact congrArg (Except.map _) (if_pos empty)
  · rw [if_neg empty]
    cases side with
    | low => exact congrArg (Except.map _) (if_neg empty)
    | high =>
      have used : counter.high ≠ 0 := empty
      have same : counter.topHigh = counter.slotAt .high (counter.high - 1) := by
        simp only [topHigh, slotAt]
        omega
      simp only [held, ← same]
      exact congrArg (Except.map _) (if_neg empty)

theorem onCounter_truncate (counter : TwoSidedCounter) (side : Side) (count : Nat) :
    (SlotCall.truncate side count).onCounter counter =
      if count ≤ counter.held side then .ok (none, counter.cut count side)
      else .error .growingTruncation := by
  by_cases shrinks : count ≤ counter.held side
  · rw [if_pos shrinks]
    cases side <;> exact congrArg (Except.map _) (if_pos shrinks)
  · rw [if_neg shrinks]
    cases side <;> exact congrArg (Except.map _) (if_neg shrinks)

/-! ### Slots in use -/

/-- The slots in use are those that the counter counts, from either end of the storage on. -/
def Hands (counter : TwoSidedCounter) (slots : TwoLists Nat) : Prop :=
  ∀ side, slots.get side = (List.range (counter.held side)).map (counter.slotAt side)

namespace Hands

theorem empty (capacity : Nat) : (TwoSidedCounter.empty capacity).Hands {} := by
  intro side
  cases side <;> rfl

theorem length_get (hands : counter.Hands slots) (side : Side) :
    (slots.get side).length = counter.held side := by
  rw [hands side, List.length_map, List.length_range]

theorem count_eq (hands : counter.Hands slots) : slots.count = counter.count := by
  have low := hands.length_get .low
  have high := hands.length_get .high
  simp only [TwoLists.get, held] at low high
  rw [TwoLists.count, low, high, TwoSidedCounter.count]

theorem mem_low (hands : counter.Hands slots) (slot : Nat) :
    slot ∈ slots.low ↔ slot < counter.low := by
  have low : slots.low = _ := hands .low
  simp [low, held, slotAt]

theorem mem_high (hands : counter.Hands slots) (slot : Nat) :
    slot ∈ slots.high ↔ counter.topHigh ≤ slot ∧ slot < counter.capacity := by
  have high : slots.high = _ := hands .high
  have within := counter.within
  rw [high, List.mem_map, topHigh]
  simp only [held, slotAt]
  constructor
  · rintro ⟨place, counted, rfl⟩
    rw [List.mem_range] at counted
    omega
  · rintro ⟨above, inside⟩
    exact ⟨counter.capacity - 1 - slot, List.mem_range.mpr (by omega), by omega⟩

theorem last (hands : counter.Hands slots) (side : Side) :
    (slots.get side).getLast? =
      if counter.held side = 0 then none
      else some (counter.slotAt side (counter.held side - 1)) := by
  rw [hands side]
  cases counter.held side with
  | zero => rfl
  | succ count => simp [List.range_succ]

/-- No slot is in use twice. -/
theorem nodup (hands : counter.Hands slots) : (slots.low ++ slots.high).Nodup := by
  have within := counter.within
  have low : slots.low = _ := hands .low
  have high : slots.high = _ := hands .high
  have low_nodup : slots.low.Nodup := by
    rw [low]
    exact List.nodup_range.map_on fun first _ second _ same => same
  have high_nodup : slots.high.Nodup := by
    rw [high]
    refine List.nodup_range.map_on fun first first_mem second second_mem same => ?_
    simp only [List.mem_range, held, slotAt] at first_mem second_mem same
    omega
  refine List.nodup_append'.mpr ⟨low_nodup, high_nodup, fun slot low_mem high_mem => ?_⟩
  rw [hands.mem_low] at low_mem
  rw [hands.mem_high, topHigh] at high_mem
  omega

theorem grow (hands : counter.Hands slots) (room : counter.count < counter.capacity)
    (side : Side) :
    (counter.grow room side).Hands
      (slots.alter (· ++ [counter.slotAt side (counter.held side)]) side) := by
  have low := hands .low
  have high := hands .high
  intro other
  cases side <;> cases other <;>
    simp_all [TwoLists.get, TwoLists.alter, TwoSidedCounter.grow, growLow, growHigh, held, slotAt,
      List.range_succ]

theorem cut (hands : counter.Hands slots) (count : Nat) (side : Side) :
    (counter.cut count side).Hands (slots.alter (List.take count) side) := by
  have low := hands .low
  have high := hands .high
  intro other
  cases side <;> cases other <;>
    simp_all [TwoLists.get, TwoLists.alter, TwoSidedCounter.cut, cutLow, cutHigh, held, slotAt,
      List.take_range, ← List.map_take]

end Hands

/-- A counter takes a call as the slots in use demand, and then counts those that are in use
after it. -/
structure Serves (counter : TwoSidedCounter) (slots : TwoLists Nat) (call : SlotCall) : Prop where
  lawful : call.Lawful counter.capacity slots (call.onCounter counter)
  after : (call.onCounter counter).Ensures fun (answer, after) =>
    after.Hands (call.slotsAfter slots answer) ∧ after.capacity = counter.capacity

@[simp] theorem capacity_grow (room : counter.count < counter.capacity) (side : Side) :
    (counter.grow room side).capacity = counter.capacity := by
  cases side <;> rfl

@[simp] theorem capacity_cut (count : Nat) (side : Side) :
    (counter.cut count side).capacity = counter.capacity := by
  cases side <;> rfl

namespace Hands

theorem serves_push (hands : counter.Hands slots) (side : Side) :
    counter.Serves slots (.push side) := by
  have within := counter.within
  by_cases room : counter.count < counter.capacity
  · have counted : counter.low + counter.high < counter.capacity := room
    have pushed := onCounter_push counter side
    rw [dif_pos room] at pushed
    refine ⟨?_, ?_⟩
    · rw [pushed, SlotCall.Lawful, hands.count_eq, if_pos room]
      refine ⟨_, _, rfl, ?_⟩
      rw [hands.mem_low, hands.mem_high, topHigh]
      cases side <;> simp only [slotAt, held] <;> omega
    · rw [pushed, ensures_ok]
      exact ⟨hands.grow room side, capacity_grow room side⟩
  · have refused := onCounter_push counter side
    rw [dif_neg room] at refused
    refine ⟨?_, ?_⟩
    · rw [refused, SlotCall.Lawful, hands.count_eq, if_neg room]
    · rw [refused]
      exact ensures_error

theorem serves_pop (hands : counter.Hands slots) (side : Side) :
    counter.Serves slots (.pop side) := by
  have last := hands.last side
  have popped := onCounter_pop counter side
  by_cases empty : counter.held side = 0
  · rw [if_pos empty] at last popped
    refine ⟨?_, ?_⟩
    · simp only [SlotCall.Lawful, last]
      exact popped
    · rw [popped]
      exact ensures_error
  · rw [if_neg empty] at last popped
    refine ⟨?_, ?_⟩
    · simp only [SlotCall.Lawful, last]
      exact ⟨_, popped⟩
    · rw [popped, ensures_ok, ← hands.length_get side]
      refine ⟨?_, capacity_cut _ side⟩
      simp only [SlotCall.slotsAfter, slots.alter_dropLast]
      exact hands.cut _ side

theorem serves_truncate (hands : counter.Hands slots) (side : Side) (count : Nat) :
    counter.Serves slots (.truncate side count) := by
  have truncated := onCounter_truncate counter side count
  by_cases shrinks : count ≤ counter.held side
  · rw [if_pos shrinks] at truncated
    refine ⟨?_, ?_⟩
    · rw [truncated, SlotCall.Lawful, hands.length_get, if_pos shrinks]
      exact ⟨_, rfl⟩
    · rw [truncated, ensures_ok]
      exact ⟨hands.cut count side, capacity_cut count side⟩
  · rw [if_neg shrinks] at truncated
    refine ⟨?_, ?_⟩
    · rw [truncated, SlotCall.Lawful, hands.length_get, if_neg shrinks]
    · rw [truncated]
      exact ensures_error

theorem serves_clear (counter : TwoSidedCounter) (slots : TwoLists Nat) :
    counter.Serves slots .clear := by
  refine ⟨⟨_, rfl⟩, ?_⟩
  rw [SlotCall.onCounter, ensures_ok]
  refine ⟨?_, rfl⟩
  intro side
  cases side <;> simp [SlotCall.slotsAfter, TwoLists.get, held, clear, cutLow, cutHigh]

theorem serves (hands : counter.Hands slots) (call : SlotCall) : counter.Serves slots call := by
  cases call with
  | push side => exact hands.serves_push side
  | pop side => exact hands.serves_pop side
  | truncate side count => exact hands.serves_truncate side count
  | clear => exact serves_clear counter slots

/-- After any calls the counter counts the slots in use. -/
theorem takeAll (hands : counter.Hands slots) (calls : List SlotCall) :
    (SlotCall.takeAll calls counter slots).Ensures fun (after, later) =>
      after.Hands later ∧ after.capacity = counter.capacity := by
  induction calls generalizing counter slots with
  | nil => exact ensures_ok.mpr ⟨hands, rfl⟩
  | cons call calls ih =>
    refine (hands.serves call).after.bind fun (answer, after) ⟨counts, capacity⟩ => ?_
    refine (ih counts).mono fun (last, later) ⟨held, same⟩ => ⟨held, same.trans capacity⟩

end Hands

end TwoSidedCounter

/-! ## Requests -/

/-- A call that changes a queue of requests. -/
inductive QueueCall where
  | pushLaunch (request : Request)
  | pushCancel (request : Request)
  | truncateLaunches (count : Nat)
  | clear

namespace QueueCall

/-- A queue takes a call. -/
def onQueue (queue : RequestQueue) : QueueCall → Checked RequestQueue
  | pushLaunch request => queue.pushLaunch request
  | pushCancel request => queue.pushCancel request
  | truncateLaunches count => queue.truncateLaunches count
  | clear => .ok queue.clear

/-- Two lists in limited room take a call: the launches are the one list, the cancels the other. -/
def onLists (capacity : Nat) (lists : TwoLists Request) : QueueCall → Checked (TwoLists Request)
  | pushLaunch request =>
      if lists.count < capacity then .ok (lists.alter (· ++ [request]) .low)
      else .error .fullStorage
  | pushCancel request =>
      if lists.count < capacity then .ok (lists.alter (· ++ [request]) .high)
      else .error .fullStorage
  | truncateLaunches count =>
      if count ≤ lists.low.length then .ok (lists.alter (List.take count) .low)
      else .error .growingTruncation
  | clear => .ok {}

/-- What a call asks of the counter of the queue. -/
def slotCall : QueueCall → SlotCall
  | pushLaunch _ => .push .low
  | pushCancel _ => .push .high
  | truncateLaunches count => .truncate .low count
  | clear => .clear

end QueueCall

namespace RequestQueue
variable {queue : RequestQueue} {lists : TwoLists Request} {capacity : Nat}

/-- A queue shows two lists that share its room. -/
structure Represents (queue : RequestQueue) (capacity : Nat) (lists : TwoLists Request) :
    Prop where
  launches : queue.launches.toList = lists.low
  cancels : queue.cancels.toList = lists.high.reverse
  capacity : queue.capacity = capacity

namespace Represents

theorem empty (capacity : Nat) : (RequestQueue.empty capacity).Represents capacity {} := by
  refine ⟨?_, ?_, rfl⟩
  · rw [toList_launches]
    rfl
  · rw [toList_cancels]
    simp [RequestQueue.empty, TwoSidedCounter.topHigh, TwoSidedCounter.empty]

theorem launchCount (represents : queue.Represents capacity lists) :
    queue.launchCount = lists.low.length := by
  rw [← represents.launches, Array.length_toList, size_launches]

theorem cancelCount (represents : queue.Represents capacity lists) :
    queue.cancelCount = lists.high.length := by
  rw [← List.length_reverse, ← represents.cancels, Array.length_toList, size_cancels]

theorem count (represents : queue.Represents capacity lists) : queue.count = lists.count := by
  rw [TwoLists.count, ← represents.launchCount, ← represents.cancelCount]
  rfl

theorem count_le (represents : queue.Represents capacity lists) : lists.count ≤ capacity := by
  rw [← represents.count, ← represents.capacity]
  exact queue.sides.within

theorem isFull_iff (represents : queue.Represents capacity lists) :
    queue.isFull = true ↔ lists.count = capacity := by
  rw [← represents.count, ← represents.capacity]
  exact beq_iff_eq

/-- A push that is done or refused as the room demands does to the queue what it does to the
lists. -/
theorem push (represents : queue.Represents capacity lists) {request : Request} {side : Side}
    {outcome : Checked RequestQueue}
    (done : queue.count < queue.capacity → ∃ after, outcome = .ok after ∧
      after.Represents capacity (lists.alter (· ++ [request]) side))
    (refused : ¬queue.count < queue.capacity → outcome = .error .fullStorage) :
    SameOutcome outcome
      (if lists.count < capacity then .ok (lists.alter (· ++ [request]) side)
      else .error .fullStorage) fun after later => after.Represents capacity later := by
  rw [← represents.count, ← represents.capacity]
  by_cases room : queue.count < queue.capacity
  · obtain ⟨after, rfl, held⟩ := done room
    rw [if_pos room]
    exact represents.capacity ▸ held
  · rw [refused room, if_neg room]
    rfl

/-- A call does to the queue what it does to the lists. -/
theorem onQueue (represents : queue.Represents capacity lists) (call : QueueCall) :
    SameOutcome (call.onQueue queue) (call.onLists capacity lists)
      fun after later => after.Represents capacity later := by
  cases call with
  | pushLaunch request =>
    refine represents.push (fun room => ?_) fun full => dif_neg full
    obtain ⟨after, pushed, launches, cancels, same⟩ := pushLaunch_room room request
    refine ⟨after, pushed, ?_, ?_, same.trans represents.capacity⟩
    · rw [launches, represents.launches]
      rfl
    · rw [cancels, represents.cancels]
      rfl
  | pushCancel request =>
    refine represents.push (fun room => ?_) fun full => dif_neg full
    obtain ⟨after, pushed, launches, cancels, same⟩ := pushCancel_room room request
    refine ⟨after, pushed, ?_, ?_, same.trans represents.capacity⟩
    · rw [launches, represents.launches]
      rfl
    · rw [cancels, represents.cancels]
      simp [TwoLists.alter]
  | truncateLaunches size =>
    by_cases shrinks : size ≤ lists.low.length
    · have fits : size ≤ queue.launches.toList.length := by rwa [represents.launches]
      obtain ⟨after, truncated, launches, cancels, same⟩ := truncateLaunches_shrink fits
      simp only [QueueCall.onQueue, QueueCall.onLists, truncated, if_pos shrinks]
      refine ⟨?_, ?_, same.trans represents.capacity⟩
      · rw [launches, represents.launches]
        rfl
      · rw [cancels, represents.cancels]
        rfl
    · have grows : ¬size ≤ queue.sides.low := by
        have := represents.launchCount
        rwa [← this] at shrinks
      have refused : queue.truncateLaunches size = .error .growingTruncation := if_neg grows
      simp only [QueueCall.onQueue, QueueCall.onLists, refused, if_neg shrinks]
      rfl
  | clear =>
    refine ⟨?_, ?_, represents.capacity⟩
    · rw [launches_clear]
    · rw [cancels_clear]
      rfl

/-- Any calls do to the queue what they do to the lists. -/
theorem takeAll (represents : queue.Represents capacity lists) (calls : List QueueCall) :
    SameOutcome (calls.foldlM QueueCall.onQueue queue)
      (calls.foldlM (QueueCall.onLists capacity) lists)
      fun after later => after.Represents capacity later := by
  induction calls generalizing queue lists with
  | nil => exact represents
  | cons call calls ih =>
    rw [List.foldlM_cons, List.foldlM_cons]
    exact (represents.onQueue call).bind fun after later held => ih held

end Represents

/-- A slot is in use if a launch or a cancel stands in it. -/
def InUse (queue : RequestQueue) (slot : Nat) : Prop :=
  slot < queue.launchCount ∨ queue.sides.topHigh ≤ slot

/-- No call writes to a slot that is in use, on either side. -/
theorem slots_onQueue (queue : RequestQueue) (call : QueueCall) :
    (call.onQueue queue).Ensures fun after =>
      ∀ slot, queue.InUse slot → after.slots[slot]? = queue.slots[slot]? := by
  intro after taken slot used
  simp only [InUse, launchCount, TwoSidedCounter.topHigh] at used
  cases call with
  | pushLaunch request =>
    simp only [QueueCall.onQueue, pushLaunch] at taken
    split at taken
    · next room =>
      obtain rfl := Except.ok.inj taken
      rw [TwoSidedCounter.count] at room
      exact Array.getElem?_setIfInBounds_ne (by omega)
    · cases taken
  | pushCancel request =>
    simp only [QueueCall.onQueue, pushCancel] at taken
    split at taken
    · next room =>
      obtain rfl := Except.ok.inj taken
      rw [TwoSidedCounter.count] at room
      exact Array.getElem?_setIfInBounds_ne (by rw [TwoSidedCounter.topHigh]; omega)
    · cases taken
  | truncateLaunches count =>
    simp only [QueueCall.onQueue, truncateLaunches] at taken
    split at taken
    · obtain rfl := Except.ok.inj taken
      rfl
    · cases taken
  | clear =>
    obtain rfl := Except.ok.inj taken
    rfl

/-- The counter of the queue takes the calls that hand out its slots. -/
theorem sides_onQueue (queue : RequestQueue) (call : QueueCall) :
    (call.onQueue queue).map RequestQueue.sides =
      (call.slotCall.onCounter queue.sides).map Prod.snd := by
  cases call with
  | pushLaunch request =>
    simp only [QueueCall.onQueue, pushLaunch, QueueCall.slotCall, SlotCall.onCounter,
      TwoSidedCounter.pushLow]
    split <;> rfl
  | pushCancel request =>
    simp only [QueueCall.onQueue, pushCancel, QueueCall.slotCall, SlotCall.onCounter,
      TwoSidedCounter.pushHigh]
    split <;> rfl
  | truncateLaunches count =>
    simp only [QueueCall.onQueue, truncateLaunches, QueueCall.slotCall, SlotCall.onCounter,
      TwoSidedCounter.truncateLow]
    split <;> rfl
  | clear => rfl

end RequestQueue

end BehaviorTree
