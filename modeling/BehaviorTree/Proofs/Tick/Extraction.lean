import BehaviorTree.Proofs.Storage.TwoSided
import BehaviorTree.Proofs.Tick.InPlace

namespace BehaviorTree
open Checked

namespace InPlace

/-- Requests are appended one after the other. -/
def pushRequests : List ActorRequest → Procedure (Machine × List ActorRequest) MachineError Unit
  | [] => return ()
  | request :: requests => do
    modify fun (machine, list) => (machine, list ++ [request])
    pushRequests requests

/-- The queued requests are appended to the list, and leave the machine. -/
def appendRequests (actor : Nat) : Procedure (Machine × List ActorRequest) MachineError Nat := do
  let (machine, before) ← get
  pushRequests (machine.requests.forActor actor)
  modify fun (machine, list) => ({ machine with requests := machine.requests.clear }, list)
  let (_, after) ← get
  return after.length - before.length

theorem outcome_pushRequests (requests : List ActorRequest) (machine : Machine)
    (list : List ActorRequest) :
    (pushRequests requests).outcome (machine, list) = .ok (.ok (), machine, list ++ requests) := by
  induction requests generalizing list with
  | nil => rw [pushRequests, Procedure.outcome_pure, List.append_nil]
  | cons request requests ih =>
    rw [pushRequests, Procedure.outcome_bind, Procedure.outcome_modify, ok_bind]
    change (pushRequests requests).outcome (machine, list ++ [request]) = _
    rw [ih, List.append_assoc, List.singleton_append]

theorem outcome_appendRequests (actor : Nat) (machine : Machine) (list : List ActorRequest) :
    (appendRequests actor).outcome (machine, list) =
      .ok (.ok (machine.appendRequests actor list).1, (machine.appendRequests actor list).2.2,
        (machine.appendRequests actor list).2.1) := by
  simp only [appendRequests, Procedure.outcome_bind, Procedure.outcome_get, ok_bind,
    outcome_pushRequests, Procedure.outcome_modify, Procedure.outcome_pure]
  rfl

end InPlace

/-- Two lists as they are told on behalf of an actor: the cancels, latest first, and then the
launches in order. -/
def TwoLists.told (lists : TwoLists Request) (actor : Nat) : List ActorRequest :=
  lists.high.reverse.map (.ofRequest actor .cancel) ++ lists.low.map (.ofRequest actor .launch)

/-- The queued requests are told as two lists and leave the machine, whichever way they go. -/
structure Machine.HandsOver (machine : Machine) (lists : TwoLists Request) (actor : Nat)
    (emptied : Machine) : Prop where
  only : emptied = { machine with requests := machine.requests.clear }
  empty : emptied.requests.Represents machine.requests.capacity {}
  appends : ∀ list, machine.appendRequests actor list =
    (lists.count, list ++ lists.told actor, emptied)
  appends_inPlace : ∀ list, (InPlace.appendRequests actor).outcome (machine, list) =
    .ok (.ok lists.count, emptied, list ++ lists.told actor)
  writes : ∀ room : List ActorRequest, lists.count ≤ room.length →
    machine.takeRequestsInto actor room =
      .ok (lists.count, lists.told actor ++ room.drop lists.count, emptied)
  writes_inPlace : ∀ room : List ActorRequest, lists.count ≤ room.length →
    (InPlace.takeRequests actor).outcome (machine, room) =
      .ok (.ok lists.count, emptied, lists.told actor ++ room.drop lists.count)
  refuses : ∀ room : List ActorRequest, room.length < lists.count →
    (InPlace.takeRequests actor).outcome (machine, room) =
      .ok (.error (.requestsDoNotFit room.length lists.count), machine, room)

theorem RequestQueue.Represents.handsOver {queue : RequestQueue} {capacity : Nat}
    {lists : TwoLists Request} (represents : queue.Represents capacity lists) (machine : Machine)
    (actor : Nat) :
    ({ machine with requests := queue } : Machine).HandsOver lists actor
      { machine with requests := queue.clear } := by
  have told : queue.forActor actor = lists.told actor := by
    rw [RequestQueue.forActor, represents.launches, represents.cancels]
    rfl
  have length : (lists.told actor).length = lists.count := by
    rw [← told, InPlace.length_forActor, represents.count]
  have appends (list : List ActorRequest) :
      ({ machine with requests := queue } : Machine).appendRequests actor list =
        (lists.count, list ++ lists.told actor, { machine with requests := queue.clear }) := by
    simp only [Machine.appendRequests, Machine.takeRequests, told, List.length_append, length]
    rw [Nat.add_sub_cancel_left]
  have writes (room : List ActorRequest) (fits : lists.count ≤ room.length) :
      ({ machine with requests := queue } : Machine).takeRequestsInto actor room =
        .ok (lists.count, lists.told actor ++ room.drop lists.count,
          { machine with requests := queue.clear }) := by
    simp only [Machine.takeRequestsInto, Machine.takeRequests, told, represents.count, length,
      if_neg (Nat.not_lt.mpr fits)]
  refine ⟨rfl, ⟨?_, ?_, rfl⟩, appends, fun list => ?_, writes, fun room fits => ?_,
    fun room lacks => ?_⟩
  · rw [RequestQueue.launches_clear]
  · rw [RequestQueue.cancels_clear]
    rfl
  · rw [InPlace.outcome_appendRequests, appends]
  · rw [InPlace.outcome_takeRequests, writes room fits]
    rfl
  · rw [InPlace.outcome_takeRequests, Machine.takeRequestsInto]
    simp only [represents.count, if_pos lacks]
    rfl

/-! ## Every run -/

/-- The slots that a counter has handed out are two stacks in one storage. -/
structure TwoSidedCounter.Stacks (counter : TwoSidedCounter) (capacity : Nat)
    (slots : TwoLists Nat) : Prop where
  room : counter.capacity = capacity
  count_le : slots.count ≤ capacity
  full : counter.isFull = true ↔ slots.count = capacity
  nodup : (slots.low ++ slots.high).Nodup
  inside : ∀ slot ∈ slots.low ++ slots.high, slot < capacity
  lawful : ∀ call : SlotCall, call.Lawful capacity slots (call.onCounter counter)

theorem TwoSidedCounter.Hands.stacks {counter : TwoSidedCounter} {slots : TwoLists Nat}
    (hands : counter.Hands slots) : counter.Stacks counter.capacity slots := by
  have within := counter.within
  refine ⟨rfl, ?_, ?_, hands.nodup, fun slot used => ?_, fun call => (hands.serves call).lawful⟩
  · rw [hands.count_eq]
    exact within
  · rw [hands.count_eq]
    exact beq_iff_eq
  · rcases List.mem_append.mp used with low | high
    · have below := (hands.mem_low slot).mp low
      omega
    · exact ((hands.mem_high slot).mp high).2

/-- A queue is two lists in limited room: it counts them and shows them, no call writes over them,
and it hands them over. -/
structure RequestQueue.Keeps (queue : RequestQueue) (capacity : Nat) (lists : TwoLists Request) :
    Prop where
  represents : queue.Represents capacity lists
  launchCount : queue.launchCount = lists.low.length
  cancelCount : queue.cancelCount = lists.high.length
  count_le : lists.count ≤ capacity
  full : queue.isFull = true ↔ lists.count = capacity
  counts : ∀ call : QueueCall, (call.onQueue queue).map RequestQueue.sides =
    (call.slotCall.onCounter queue.sides).map Prod.snd
  undisturbed : ∀ call : QueueCall, (call.onQueue queue).Ensures fun after =>
    ∀ slot, queue.InUse slot → after.slots[slot]? = queue.slots[slot]?
  handsOver : ∀ (machine : Machine) (actor : Nat),
    ({ machine with requests := queue } : Machine).HandsOver lists actor
      { machine with requests := queue.clear }

theorem RequestQueue.Represents.keeps {queue : RequestQueue} {capacity : Nat}
    {lists : TwoLists Request} (represents : queue.Represents capacity lists) :
    queue.Keeps capacity lists where
  represents := represents
  launchCount := represents.launchCount
  cancelCount := represents.cancelCount
  count_le := represents.count_le
  full := represents.isFull_iff
  counts := queue.sides_onQueue
  undisturbed := queue.slots_onQueue
  handsOver := represents.handsOver

/-- Through any calls an empty queue is refused what two empty lists in the same room are refused,
and otherwise keeps what they hold. Through any calls the slots that an empty counter hands out are
two stacks. -/
theorem RequestQueue.keeps_two_lists (capacity : Nat) :
    (∀ calls : List QueueCall,
      SameOutcome (calls.foldlM QueueCall.onQueue (RequestQueue.empty capacity))
        (calls.foldlM (QueueCall.onLists capacity) {}) fun queue lists =>
          queue.Keeps capacity lists) ∧
    ∀ calls : List SlotCall,
      (SlotCall.takeAll calls (TwoSidedCounter.empty capacity) {}).Ensures fun (counter, slots) =>
        counter.Stacks capacity slots := by
  refine ⟨fun calls => ?_, fun calls => ?_⟩
  · exact ((RequestQueue.Represents.empty capacity).takeAll calls).mono
      fun queue lists held => held.keeps
  · refine ((TwoSidedCounter.Hands.empty capacity).takeAll calls).mono
      fun (counter, slots) ⟨hands, same⟩ => ?_
    have piled := hands.stacks
    rwa [same] at piled

end BehaviorTree
