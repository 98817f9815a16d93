import BehaviorTree.Storage.TwoSidedCounter

namespace BehaviorTree

/-- A request for a deferred action; the side of the queue tells what is asked. -/
structure Request where
  action : Nat
  resource : Nat
  atom : Nat
  deriving DecidableEq, Repr, Inhabited

namespace Request

/-- The written names of the fields. -/
def fieldNames : List String := ["action_id", "resource_id", "shape_atom_index"]

/-- The fields under their written names. -/
def fields (request : Request) : List (String × Nat) :=
  fieldNames.zip [request.action, request.resource, request.atom]

end Request

/-- What is asked of a deferred action. -/
inductive RequestKind where
  | launch
  | cancel
  deriving DecidableEq, Repr

namespace RequestKind

def all : List RequestKind := [launch, cancel]

def name : RequestKind → String
  | launch => "Launch"
  | cancel => "Cancel"

/-- The kind with a given written name. -/
def ofName? (text : String) : Option RequestKind := all.find? (·.name == text)

@[simp] theorem ofName?_name (kind : RequestKind) : ofName? kind.name = some kind := by
  cases kind <;> decide

end RequestKind

/-- A request together with the actor on whose behalf it is made. -/
structure ActorRequest where
  actor : Nat
  action : Nat
  resource : Nat
  atom : Nat
  kind : RequestKind
  deriving DecidableEq, Repr

namespace ActorRequest

/-- The request that fills unused room. -/
def blank : ActorRequest := ⟨0, 0, 0, 0, .launch⟩

/-- What is asked, without the actor and the kind. -/
def request (request : ActorRequest) : Request := ⟨request.action, request.resource, request.atom⟩

def ofRequest (actor : Nat) (kind : RequestKind) (request : Request) : ActorRequest :=
  ⟨actor, request.action, request.resource, request.atom, kind⟩

end ActorRequest

/-- Launches grow from the start of the storage, and cancels from its end, so that launches can be
taken back without touching the cancels. -/
structure RequestQueue where
  slots : Array Request
  sides : TwoSidedCounter
  sized : slots.size = sides.capacity

namespace RequestQueue

def empty (capacity : Nat) : RequestQueue :=
  ⟨Array.replicate capacity ⟨0, 0, 0⟩, .empty capacity, by simp⟩

def isFull (queue : RequestQueue) : Bool := queue.sides.isFull

def count (queue : RequestQueue) : Nat := queue.sides.count

def launchCount (queue : RequestQueue) : Nat := queue.sides.low

def cancelCount (queue : RequestQueue) : Nat := queue.sides.high

/-- The launches, in the order in which they were requested. -/
def launches (queue : RequestQueue) : Array Request := queue.slots.take queue.sides.low

/-- The cancels, latest first. -/
def cancels (queue : RequestQueue) : Array Request := queue.slots.drop queue.sides.topHigh

def pushLaunch (queue : RequestQueue) (request : Request) : Checked RequestQueue :=
  if room : queue.sides.count < queue.sides.capacity then
    .ok ⟨queue.slots.setIfInBounds queue.sides.low request, queue.sides.growLow room,
      by simp [queue.sized]⟩
  else .error .fullStorage

def pushCancel (queue : RequestQueue) (request : Request) : Checked RequestQueue :=
  if room : queue.sides.count < queue.sides.capacity then
    .ok ⟨queue.slots.setIfInBounds (queue.sides.topHigh - 1) request, queue.sides.growHigh room,
      by simp [queue.sized]⟩
  else .error .fullStorage

/-- The launches after the first ones are taken back. -/
def truncateLaunches (queue : RequestQueue) (count : Nat) : Checked RequestQueue :=
  if count ≤ queue.sides.low then
    .ok { queue with sides := queue.sides.cutLow count }
  else .error .growingTruncation

def clear (queue : RequestQueue) : RequestQueue := { queue with sides := queue.sides.clear }

/-- All requests on behalf of an actor: the cancels, latest first, and then the launches in
order. -/
def forActor (queue : RequestQueue) (actor : Nat) : List ActorRequest :=
  queue.cancels.toList.map (.ofRequest actor .cancel) ++
    queue.launches.toList.map (.ofRequest actor .launch)

theorem sides_le_size (queue : RequestQueue) :
    queue.sides.low + queue.sides.high ≤ queue.slots.size := by
  rw [queue.sized]
  exact queue.sides.within

theorem toList_launches (queue : RequestQueue) :
    queue.launches.toList = queue.slots.toList.take queue.sides.low := by
  simp [launches]

theorem toList_cancels (queue : RequestQueue) :
    queue.cancels.toList = queue.slots.toList.drop queue.sides.topHigh := by
  simp [cancels, List.take_of_length_le]

@[simp] theorem size_launches (queue : RequestQueue) : queue.launches.size = queue.launchCount := by
  have := queue.sides_le_size
  rw [← Array.length_toList, toList_launches, List.length_take, Array.length_toList, launchCount]
  omega

@[simp] theorem size_cancels (queue : RequestQueue) : queue.cancels.size = queue.cancelCount := by
  have := queue.sides_le_size
  rw [← Array.length_toList, toList_cancels, List.length_drop, Array.length_toList, queue.sized,
    TwoSidedCounter.topHigh, cancelCount]
  have := queue.sides.within
  omega

@[simp] theorem launches_clear (queue : RequestQueue) : queue.clear.launches = #[] := by
  simp [launches, clear, TwoSidedCounter.clear, TwoSidedCounter.cutLow, TwoSidedCounter.cutHigh]

@[simp] theorem cancels_clear (queue : RequestQueue) : queue.clear.cancels = #[] := by
  apply Array.eq_empty_of_size_eq_zero
  simp [cancelCount, clear, TwoSidedCounter.clear, TwoSidedCounter.cutLow, TwoSidedCounter.cutHigh]

/-- A launch goes behind the others and leaves the cancels alone. -/
theorem pushLaunch_lists {queue after : RequestQueue} {request : Request}
    (pushed : queue.pushLaunch request = .ok after) :
    after.launches = queue.launches.push request ∧ after.cancels = queue.cancels := by
  unfold pushLaunch at pushed
  split at pushed
  · next room =>
    obtain rfl := Except.ok.inj pushed
    rw [TwoSidedCounter.count] at room
    have inside : queue.sides.low < queue.slots.toList.length := by
      rw [Array.length_toList, queue.sized]
      omega
    have apart : queue.sides.low < queue.sides.topHigh := by
      rw [TwoSidedCounter.topHigh]
      omega
    constructor
    · apply Array.ext'
      rw [toList_launches, Array.toList_push, toList_launches]
      simp [TwoSidedCounter.growLow, List.take_add_one, List.take_set_of_le,
        List.getElem?_set_self inside]
    · apply Array.ext'
      rw [toList_cancels, toList_cancels, Array.toList_setIfInBounds]
      exact List.drop_set_of_lt apart
  · cases pushed

/-- A cancel goes in front of the others and leaves the launches alone. -/
theorem pushCancel_lists {queue after : RequestQueue} {request : Request}
    (pushed : queue.pushCancel request = .ok after) :
    after.launches = queue.launches ∧ after.cancels = #[request] ++ queue.cancels := by
  unfold pushCancel at pushed
  split at pushed
  · next room =>
    obtain rfl := Except.ok.inj pushed
    rw [TwoSidedCounter.count] at room
    have inside : queue.sides.topHigh - 1 < queue.slots.toList.length := by
      rw [Array.length_toList, queue.sized, TwoSidedCounter.topHigh]
      omega
    have apart : queue.sides.low ≤ queue.sides.topHigh - 1 := by
      rw [TwoSidedCounter.topHigh]
      omega
    constructor
    · apply Array.ext'
      rw [toList_launches, toList_launches, Array.toList_setIfInBounds]
      exact List.take_set_of_le apart
    · apply Array.ext'
      rw [toList_cancels, Array.toList_append, toList_cancels, Array.toList_setIfInBounds]
      have start : (queue.sides.growHigh room).topHigh = queue.sides.topHigh - 1 := by
        simp only [TwoSidedCounter.topHigh, TwoSidedCounter.growHigh]
        omega
      have above : queue.sides.topHigh - 1 + 1 = queue.sides.topHigh := by
        rw [TwoSidedCounter.topHigh]
        omega
      simp only [start]
      rw [List.drop_set, if_neg (Nat.lt_irrefl _), Nat.sub_self,
        List.drop_eq_getElem_cons inside, List.set_cons_zero, above]
      rfl
  · cases pushed

/-- A truncation keeps the launches that were requested first, and all cancels. -/
theorem truncateLaunches_lists {queue after : RequestQueue} {count : Nat}
    (truncated : queue.truncateLaunches count = .ok after) :
    after.launches = queue.launches.take count ∧ after.cancels = queue.cancels := by
  unfold truncateLaunches at truncated
  split at truncated
  · obtain rfl := Except.ok.inj truncated
    constructor
    · simp [launches, TwoSidedCounter.cutLow]
    · rfl
  · cases truncated

end RequestQueue

end BehaviorTree
