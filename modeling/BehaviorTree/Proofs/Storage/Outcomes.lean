import BehaviorTree.Proofs.Ordered.Reorder
import BehaviorTree.Proofs.Storage.Room

namespace BehaviorTree

namespace Checked
variable {α γ δ ε : Type}

/-- If there is an outcome, something holds of it. -/
def Ensures (outcome : Checked α) (holds : α → Prop) : Prop :=
  ∀ value, outcome = .ok value → holds value

@[simp] theorem ensures_ok {value : α} {holds : α → Prop} :
    Ensures (.ok value) holds ↔ holds value :=
  ⟨fun ensures => ensures value rfl, fun held _ same => Except.ok.inj same ▸ held⟩

@[simp] theorem ensures_pure {value : α} {holds : α → Prop} :
    Ensures (pure value) holds ↔ holds value :=
  ensures_ok

@[simp] theorem ensures_error {fault : Fault} {holds : α → Prop} :
    Ensures (.error fault) holds := by
  intro value same
  cases same

theorem Ensures.bind {outcome : Checked α} {next : α → Checked γ} {first : α → Prop}
    {holds : γ → Prop} (ensures : outcome.Ensures first)
    (rest : ∀ value, first value → (next value).Ensures holds) :
    (outcome >>= next).Ensures holds := by
  cases outcome with
  | error fault => exact ensures_error
  | ok value => exact rest value (ensures value rfl)

theorem Ensures.mono {outcome : Checked α} {first holds : α → Prop}
    (ensures : outcome.Ensures first) (implies : ∀ value, first value → holds value) :
    outcome.Ensures holds :=
  fun value same => implies value (ensures value same)

theorem Ensures.and {outcome : Checked α} {first second : α → Prop}
    (ensures : outcome.Ensures first) (also : outcome.Ensures second) :
    outcome.Ensures fun value => first value ∧ second value :=
  fun value same => ⟨ensures value same, also value same⟩

/-- Nothing is known of the outcome. -/
theorem ensures_true (outcome : Checked α) : outcome.Ensures fun _ => True :=
  fun _ _ => trivial

/-- The outcome is the value that is computed. -/
theorem ensures_self (outcome : Checked α) : outcome.Ensures fun value => outcome = .ok value :=
  fun _ same => same

/-- Where one computation succeeds, another one does so too, and their values are related. -/
def Leads (leading : Checked α) (following : Checked γ) (related : α → γ → Prop) : Prop :=
  ∀ value, leading = .ok value → ∃ other, following = .ok other ∧ related value other

theorem leads_ok {value : α} {other : γ} {related : α → γ → Prop} (holds : related value other) :
    Leads (.ok value) (.ok other) related := by
  intro result same
  obtain rfl := Except.ok.inj same
  exact ⟨other, rfl, holds⟩

theorem leads_error {fault : Fault} {following : Checked γ} {related : α → γ → Prop} :
    Leads (.error fault) following related := by
  intro result same
  cases same

/-- A computation leads itself. -/
theorem leads_self (outcome : Checked α) :
    Leads outcome outcome fun value other => other = value ∧ outcome = .ok value :=
  fun value same => ⟨value, same, rfl, same⟩

theorem bind_eq_ok {outcome : Checked α} {next : α → Checked γ} {result : γ} :
    (outcome >>= next) = .ok result ↔ ∃ value, outcome = .ok value ∧ next value = .ok result := by
  cases outcome with
  | error fault =>
    constructor
    · intro same
      cases same
    · rintro ⟨_, same, _⟩
      cases same
  | ok value =>
    refine ⟨fun same => ⟨value, rfl, same⟩, ?_⟩
    rintro ⟨_, same, rest⟩
    obtain rfl := Except.ok.inj same
    exact rest

theorem ok_bind (value : α) (next : α → Checked γ) : (Except.ok value >>= next) = next value := rfl

theorem Leads.bind {leading : Checked α} {following : Checked γ} {first : α → γ → Prop}
    {next : α → Checked δ} {later : γ → Checked ε} {related : δ → ε → Prop}
    (leads : Leads leading following first)
    (rest : ∀ value other, first value other → Leads (next value) (later other) related) :
    Leads (leading >>= next) (following >>= later) related := by
  cases leading with
  | error fault => exact leads_error
  | ok value =>
    obtain ⟨other, rfl, holds⟩ := leads value rfl
    exact rest value other holds

end Checked

open Checked

namespace Buffer
variable {α : Type}

theorem ensures_push (buffer : Buffer α) (value : α) :
    (buffer.push value).Ensures fun after =>
      after.contents = buffer.contents.push value ∧ after.capacity = buffer.capacity := by
  intro after pushed
  refine ⟨contents_push pushed, ?_⟩
  unfold push at pushed
  split at pushed
  · obtain rfl := Except.ok.inj pushed
    rfl
  · cases pushed

theorem ensures_truncate (buffer : Buffer α) (count : Nat) :
    (buffer.truncate count).Ensures fun after =>
      after.contents = buffer.contents.take count ∧ after.capacity = buffer.capacity := by
  intro after truncated
  refine ⟨contents_truncate truncated, ?_⟩
  unfold truncate at truncated
  split at truncated
  · obtain rfl := Except.ok.inj truncated
    rfl
  · cases truncated

theorem ensures_pop (buffer : Buffer α) :
    buffer.pop.Ensures fun popped =>
      buffer.contents = popped.2.contents.push popped.1 ∧ popped.2.capacity = buffer.capacity := by
  intro ⟨value, after⟩ popped
  refine ⟨contents_pop popped, ?_⟩
  unfold pop at popped
  split at popped
  · obtain ⟨-, rfl⟩ := Prod.mk.inj (Except.ok.inj popped)
    rfl
  · cases popped

theorem capacity_setTop (buffer : Buffer α) (value : α) :
    (buffer.setTop value).capacity = buffer.capacity := by
  unfold setTop
  split <;> rfl

variable {buffer other : Buffer α}

/-- Another buffer holds the same and has at least as much room; what is stale may differ. -/
structure FitsIn (buffer other : Buffer α) : Prop where
  contents : other.contents = buffer.contents
  capacity : buffer.capacity ≤ other.capacity

namespace FitsIn

theorem count (fits : buffer.FitsIn other) : other.count = buffer.count := by
  rw [← size_contents, fits.contents, size_contents]

theorem top? (fits : buffer.FitsIn other) : other.top? = buffer.top? := by
  rw [top?_eq_back?, top?_eq_back?, fits.contents]

theorem push (fits : buffer.FitsIn other) (value : α) :
    Leads (buffer.push value) (other.push value) FitsIn := by
  intro after pushed
  obtain ⟨contents, capacity⟩ := buffer.ensures_push value after pushed
  have room : buffer.count < buffer.capacity := by
    unfold Buffer.push at pushed
    split at pushed
    · next room => exact room
    · cases pushed
  obtain ⟨grown, grows, -, same⟩ := push_room
    (Nat.lt_of_lt_of_le (fits.count ▸ room) fits.capacity) value
  refine ⟨grown, grows, ?_, ?_⟩
  · rw [contents_push grows, contents, fits.contents]
  · rw [same, capacity]
    exact fits.capacity

theorem truncate (fits : buffer.FitsIn other) (size : Nat) :
    Leads (buffer.truncate size) (other.truncate size) FitsIn := by
  intro after truncated
  obtain ⟨contents, capacity⟩ := buffer.ensures_truncate size after truncated
  have shrinks : size ≤ buffer.count := by
    unfold Buffer.truncate at truncated
    split at truncated
    · next shrinks => exact shrinks
    · cases truncated
  have fewer : size ≤ other.contents.toList.length := by
    rw [length_contents, fits.count]
    exact shrinks
  obtain ⟨cut, cuts, -, same⟩ := truncate_shrink fewer
  refine ⟨cut, cuts, ?_, ?_⟩
  · rw [contents_truncate cuts, contents, fits.contents]
  · rw [same, capacity]
    exact fits.capacity

theorem pop (fits : buffer.FitsIn other) : Leads buffer.pop other.pop fun popped others =>
    others.1 = popped.1 ∧ popped.2.FitsIn others.2 := by
  rintro ⟨value, after⟩ popped
  obtain ⟨held, capacity⟩ := buffer.ensures_pop (value, after) popped
  have others : other.contents.toList = after.contents.toList ++ [value] := by
    rw [fits.contents, held, Array.toList_push]
  obtain ⟨rest, pops, contents, same⟩ := pop_last others
  refine ⟨(value, rest), pops, rfl, Array.ext' contents, ?_⟩
  rw [same, capacity]
  exact fits.capacity

theorem setTop (fits : buffer.FitsIn other) (value : α) :
    (buffer.setTop value).FitsIn (other.setTop value) := by
  refine ⟨Array.ext' ?_, by rw [capacity_setTop, capacity_setTop]; exact fits.capacity⟩
  have unchanged {buffer : Buffer α} (none : buffer.contents.toList = []) :
      buffer.setTop value = buffer := by
    have unused : buffer.counter.count = 0 := by
      change buffer.count = 0
      rw [← length_contents, none, List.length_nil]
    simp only [Buffer.setTop, StackCounter.top?, if_pos unused]
  rcases List.eq_nil_or_concat buffer.contents.toList with none | ⟨rest, last, held⟩
  · rw [unchanged none, unchanged (by rw [fits.contents]; exact none), fits.contents]
  · rw [List.concat_eq_append] at held
    rw [(setTop_last held value).1,
      (setTop_last (by rw [fits.contents]; exact held) value).1]

theorem isEmpty (fits : buffer.FitsIn other) : other.isEmpty = buffer.isEmpty := by
  have count : other.counter.count = buffer.counter.count := fits.count
  simp only [Buffer.isEmpty, StackCounter.isEmpty, count]

/-- As many other values take the place of those that are held. -/
theorem overwrite (fits : buffer.FitsIn other) {values : Array α}
    (same : values.size = buffer.count) :
    (buffer.overwrite values).FitsIn (other.overwrite values) := by
  refine ⟨Array.ext' ?_, by rw [capacity_overwrite, capacity_overwrite]; exact fits.capacity⟩
  rw [contents_overwrite same, contents_overwrite (same.trans fits.count.symm)]

/-- Where nothing is held, the storage does not matter. -/
theorem restore (fits : buffer.FitsIn other) (empty : buffer.isEmpty = true)
    (slots others : Array α) : (buffer.restore slots).FitsIn (other.restore others) := by
  have nothing {buffer : Buffer α} (empty : buffer.isEmpty = true) (slots : Array α) :
      (buffer.restore slots).contents = #[] := by
    have unused : buffer.count = 0 := by
      rw [← length_contents, (isEmpty_iff buffer).mp empty, List.length_nil]
    have count : (buffer.restore slots).count = 0 := by
      unfold Buffer.restore
      split <;> exact unused
    exact Array.eq_empty_of_size_eq_zero (by rw [size_contents, count])
  refine ⟨?_, by rw [capacity_restore, capacity_restore]; exact fits.capacity⟩
  rw [nothing empty, nothing (by rw [fits.isEmpty]; exact empty)]

end FitsIn

end Buffer

namespace RequestQueue

theorem ensures_pushLaunch (queue : RequestQueue) (request : Request) :
    (queue.pushLaunch request).Ensures fun after => after.capacity = queue.capacity := by
  unfold pushLaunch
  split
  · exact ensures_ok.mpr rfl
  · exact ensures_error

theorem ensures_pushCancel (queue : RequestQueue) (request : Request) :
    (queue.pushCancel request).Ensures fun after => after.capacity = queue.capacity := by
  unfold pushCancel
  split
  · exact ensures_ok.mpr rfl
  · exact ensures_error

theorem ensures_truncateLaunches (queue : RequestQueue) (count : Nat) :
    (queue.truncateLaunches count).Ensures fun after => after.capacity = queue.capacity := by
  unfold truncateLaunches
  split
  · exact ensures_ok.mpr rfl
  · exact ensures_error

variable {queue other : RequestQueue}

/-- Another queue holds the same requests and has at least as much room. -/
structure FitsIn (queue other : RequestQueue) : Prop where
  launches : other.launches = queue.launches
  cancels : other.cancels = queue.cancels
  capacity : queue.capacity ≤ other.capacity

namespace FitsIn

theorem launchCount (fits : queue.FitsIn other) : other.launchCount = queue.launchCount := by
  rw [← size_launches, fits.launches, size_launches]

theorem count (fits : queue.FitsIn other) : other.count = queue.count := by
  rw [← length_lists, ← length_lists, fits.launches, fits.cancels]

theorem pushLaunch (fits : queue.FitsIn other) (request : Request) :
    Leads (queue.pushLaunch request) (other.pushLaunch request) FitsIn := by
  intro after pushed
  obtain ⟨launches, cancels⟩ := pushLaunch_lists pushed
  have capacity := queue.ensures_pushLaunch request after pushed
  have room : queue.count < queue.capacity := by
    unfold RequestQueue.pushLaunch at pushed
    split at pushed
    · next room => exact room
    · cases pushed
  obtain ⟨grown, grows, -, -, same⟩ := pushLaunch_room
    (Nat.lt_of_lt_of_le (fits.count ▸ room) fits.capacity) request
  obtain ⟨launches_after, cancels_after⟩ := pushLaunch_lists grows
  refine ⟨grown, grows, ?_, ?_, ?_⟩
  · rw [launches_after, launches, fits.launches]
  · rw [cancels_after, cancels, fits.cancels]
  · rw [same, capacity]
    exact fits.capacity

theorem pushCancel (fits : queue.FitsIn other) (request : Request) :
    Leads (queue.pushCancel request) (other.pushCancel request) FitsIn := by
  intro after pushed
  obtain ⟨launches, cancels⟩ := pushCancel_lists pushed
  have capacity := queue.ensures_pushCancel request after pushed
  have room : queue.count < queue.capacity := by
    unfold RequestQueue.pushCancel at pushed
    split at pushed
    · next room => exact room
    · cases pushed
  obtain ⟨grown, grows, -, -, same⟩ := pushCancel_room
    (Nat.lt_of_lt_of_le (fits.count ▸ room) fits.capacity) request
  obtain ⟨launches_after, cancels_after⟩ := pushCancel_lists grows
  refine ⟨grown, grows, ?_, ?_, ?_⟩
  · rw [launches_after, launches, fits.launches]
  · rw [cancels_after, cancels, fits.cancels]
  · rw [same, capacity]
    exact fits.capacity

theorem truncateLaunches (fits : queue.FitsIn other) (size : Nat) :
    Leads (queue.truncateLaunches size) (other.truncateLaunches size) FitsIn := by
  intro after truncated
  obtain ⟨launches, cancels⟩ := truncateLaunches_lists truncated
  have capacity := queue.ensures_truncateLaunches size after truncated
  have shrinks : size ≤ queue.launchCount := by
    unfold RequestQueue.truncateLaunches at truncated
    split at truncated
    · next shrinks => exact shrinks
    · cases truncated
  have fewer : size ≤ other.launches.toList.length := by
    rw [Array.length_toList, size_launches, fits.launchCount]
    exact shrinks
  obtain ⟨cut, cuts, -, -, same⟩ := truncateLaunches_shrink fewer
  obtain ⟨launches_after, cancels_after⟩ := truncateLaunches_lists cuts
  refine ⟨cut, cuts, ?_, ?_, ?_⟩
  · rw [launches_after, launches, fits.launches]
  · rw [cancels_after, cancels, fits.cancels]
  · rw [same, capacity]
    exact fits.capacity

end FitsIn

end RequestQueue

end BehaviorTree
