import BehaviorTree.Ordered.Search
import BehaviorTree.Proofs.Course.Basic

namespace BehaviorTree

namespace Status

theorem normalized_ne_cancel (status : Status) : status.normalized ≠ .cancel := by
  cases status <;> simp [normalized]

theorem isActive_normalized (status : Status) : status.normalized.isActive = status.isActive := by
  cases status <;> rfl

/-- What neither fails nor cancels nor is active succeeds. -/
theorem eq_success {status : Status} (idle : status.isActive = false) (notFailed : status ≠ .fail)
    (notCanceled : status ≠ .cancel) : status = .success := by
  cases status with
  | success => rfl
  | fail => exact absurd rfl notFailed
  | cancel => exact absurd rfl notCanceled
  | launch | running => cases idle

theorem normalized_eq_running_iff (status : Status) :
    status.normalized = .running ↔ status.isActive = true := by
  cases status <;> simp [normalized, isActive]

end Status

namespace Span

theorem isEmpty_eq_false_iff (span : Span) : span.isEmpty = false ↔ span.start < span.stop := by
  rw [← Bool.not_eq_true, isEmpty_iff, Nat.not_le]

/-- Covering an empty span changes nothing. -/
theorem cover_of_isEmpty {span other : Span} (empty : other.isEmpty = true) :
    span.cover other = span := by
  simp [cover, empty]

/-- An empty span is replaced. -/
theorem cover_isEmpty {span other : Span} (empty : span.isEmpty = true)
    (nonempty : other.isEmpty = false) : span.cover other = other := by
  simp [cover, empty, nonempty]

theorem cover_nonempty {span other : Span} (first : span.isEmpty = false)
    (second : other.isEmpty = false) :
    span.cover other = ⟨min span.start other.start, max span.stop other.stop⟩ := by
  simp [cover, first, second]

/-- What either span contains, both together cover. -/
theorem contains_cover {span other : Span} {index : Nat}
    (contained : span.contains index = true ∨ other.contains index = true) :
    (span.cover other).contains index = true := by
  simp only [contains_iff] at contained ⊢
  by_cases first : span.isEmpty = true
  · have firstEmpty := (isEmpty_iff span).mp first
    by_cases second : other.isEmpty = true
    · have secondEmpty := (isEmpty_iff other).mp second
      omega
    · rw [cover_isEmpty first (Bool.eq_false_iff.mpr second)]
      omega
  · by_cases second : other.isEmpty = true
    · have secondEmpty := (isEmpty_iff other).mp second
      rw [cover_of_isEmpty second]
      omega
    · rw [cover_nonempty (Bool.eq_false_iff.mpr first) (Bool.eq_false_iff.mpr second)]
      simp only
      omega

/-- What lies behind the start of a span lies behind the start of each span that covers it. -/
theorem start_cover_le {span other : Span} {index : Nat} (nonempty : span.isEmpty = false)
    (behind : span.start ≤ index) :
    (span.cover other).isEmpty = false ∧ (span.cover other).start ≤ index := by
  by_cases second : other.isEmpty = true
  · rw [cover_of_isEmpty second]
    exact ⟨nonempty, behind⟩
  · rw [Bool.not_eq_true] at second
    rw [isEmpty_eq_false_iff] at *
    rw [cover_nonempty ((isEmpty_eq_false_iff span).mpr nonempty)
      ((isEmpty_eq_false_iff other).mpr second)]
    simp only
    omega

theorem cover_start_le {span other : Span} {index : Nat} (nonempty : other.isEmpty = false)
    (behind : other.start ≤ index) :
    (span.cover other).isEmpty = false ∧ (span.cover other).start ≤ index := by
  by_cases first : span.isEmpty = true
  · rw [cover_isEmpty first nonempty]
    exact ⟨nonempty, behind⟩
  · rw [Bool.not_eq_true] at first
    rw [isEmpty_eq_false_iff] at *
    rw [cover_nonempty ((isEmpty_eq_false_iff span).mpr first)
      ((isEmpty_eq_false_iff other).mpr nonempty)]
    simp only
    omega

end Span

namespace Course
variable {β : Type} (scene : Scene β) (course : Course β)

/-- A cancellation adds the atom to the canceled ones; only a call can have other effects. -/
theorem cancel_eq (atom : Nat) : ∃ board seed calls, course.cancel scene atom =
    { course with board, seed, calls, canceled := course.canceled ++ [atom] } := by
  unfold cancel
  split <;> exact ⟨_, _, _, rfl⟩

theorem cancelAll_eq (atoms : List Nat) : ∃ board seed calls, course.cancelAll scene atoms =
    { course with board, seed, calls, canceled := course.canceled ++ atoms } := by
  induction atoms generalizing course with
  | nil => exact ⟨course.board, course.seed, course.calls, by rw [List.append_nil]; rfl⟩
  | cons atom atoms ih =>
    obtain ⟨board, seed, calls, first⟩ := course.cancel_eq scene atom
    obtain ⟨board, seed, calls, rest⟩ := ih (course.cancel scene atom)
    refine ⟨board, seed, calls, ?_⟩
    change (course.cancel scene atom).cancelAll scene atoms = _
    rw [rest, first, List.append_assoc, List.singleton_append]

theorem drain_of_isEmpty {course : Course β} (empty : course.pending.isEmpty = true) :
    course.drain scene = course := by
  simp [drain, empty]

/-- A drain cancels what is abandoned and owes a cancel, and forgets the other fresh entries of the
abandoned span. -/
theorem drain_eq {course : Course β} (pending : course.pending.isEmpty = false) :
    ∃ board seed calls, course.drain scene = { course with
      board, seed, calls
      pending := .empty
      frontier := max course.frontier course.pending.stop
      outstanding := course.outstanding.filter fun entry =>
        decide (entry.atom < course.pending.start)
      canceled := course.canceled ++ course.toCancel scene } := by
  simp only [drain, pending, Bool.false_eq_true, if_false]
  obtain ⟨board, seed, calls, all⟩ := cancelAll_eq scene { course with
    pending := Span.empty
    frontier := max course.frontier course.pending.stop
    outstanding := course.outstanding.filter fun entry =>
      decide (entry.atom < course.pending.start) } (course.toCancel scene)
  exact ⟨board, seed, calls, all⟩

@[simp] theorem isEmpty_pending_drain : (course.drain scene).pending.isEmpty = true := by
  by_cases empty : course.pending.isEmpty = true
  · rw [drain_of_isEmpty scene empty, empty]
  · obtain ⟨board, seed, calls, drained⟩ :=
      drain_eq scene (Bool.eq_false_iff.mpr empty)
    rw [drained]
    rfl

/-- A drain leaves alone what sequences remember, what was visited and what was launched. -/
theorem rest_drain : (course.drain scene).continuations = course.continuations ∧
    (course.drain scene).visited = course.visited ∧
      (course.drain scene).launches = course.launches := by
  by_cases empty : course.pending.isEmpty = true
  · rw [drain_of_isEmpty scene empty]
    exact ⟨rfl, rfl, rfl⟩
  · obtain ⟨board, seed, calls, drained⟩ :=
      drain_eq scene (Bool.eq_false_iff.mpr empty)
    rw [drained]
    exact ⟨rfl, rfl, rfl⟩

@[simp] theorem continuations_drain :
    (course.drain scene).continuations = course.continuations :=
  (rest_drain scene course).1

@[simp] theorem visited_drain : (course.drain scene).visited = course.visited :=
  (rest_drain scene course).2.1

@[simp] theorem launches_drain : (course.drain scene).launches = course.launches :=
  (rest_drain scene course).2.2

/-- What a visit of an action can come to: the status that it delivers, the calls that it makes, the
entry that it leaves, and the launch that it requests. -/
inductive Delivers (atom : Nat) :
    Leaf → Status → List Call → Option Status → Option Request → Prop
  | called (function : Nat) (returned : Status) :
      Delivers atom (.immediate function) returned.normalized
        [⟨atom, function, if scene.wasActive atom then .running else .launch, returned⟩]
        (if returned.isActive then some .running else none) none
  | launched (action resource : Nat) (unknown : scene.remembered atom = none) :
      Delivers atom (.deferred action resource) .launch [] (some .launch)
        (some ⟨action, resource, atom⟩)
  | carried (action resource : Nat) (active : scene.wasActive atom = true) :
      Delivers atom (.deferred action resource) .running [] (some .running) none
  | ended (action resource : Nat) (status : Status) (known : scene.remembered atom = some status)
      (idle : status.isActive = false) :
      Delivers atom (.deferred action resource) status.normalized [] none none
  | kept (slot : Nat) (status : Status) (active : status.isActive = true) :
      Delivers atom (.persistent slot) .running [] (some status) none
  | idle (slot : Nat) (status : Status) (idle : status.isActive = false) :
      Delivers atom (.persistent slot) status.normalized [] none none

namespace Delivers
variable {scene} {atom : Nat} {leaf : Leaf} {status : Status} {added : List Call}
  {entry : Option Status} {request : Option Request}

theorem status_ne_cancel (delivers : Delivers scene atom leaf status added entry request) :
    status ≠ .cancel := by
  cases delivers with
  | called function returned => exact returned.normalized_ne_cancel
  | ended action resource status => exact status.normalized_ne_cancel
  | idle slot status => exact status.normalized_ne_cancel
  | _ => exact Status.noConfusion

/-- An entry is left if what is delivered is active. -/
theorem isSome_entry (delivers : Delivers scene atom leaf status added entry request) :
    entry.isSome = status.isActive := by
  cases delivers with
  | called function returned =>
    rw [Status.isActive_normalized]
    cases returned.isActive <;> rfl
  | ended action resource status known idle => rw [Status.isActive_normalized, idle]; rfl
  | idle slot status idle => rw [Status.isActive_normalized, idle]; rfl
  | launched | carried | kept => rfl

/-- The entry that is left is active. -/
theorem isActive_of_entry (delivers : Delivers scene atom leaf status added entry request)
    {value : Status} (left : entry = some value) : value.isActive = true := by
  cases delivers with
  | called function returned =>
    split at left
    · obtain rfl := Option.some.inj left
      rfl
    · cases left
  | launched | carried =>
    obtain rfl := Option.some.inj left
    rfl
  | kept slot status active =>
    obtain rfl := Option.some.inj left
    exact active
  | ended | idle => cases left

/-- What is launched is the visited action, which is left as launched. -/
theorem launched_of_request (delivers : Delivers scene atom leaf status added entry request)
    {launch : Request} (requested : request = some launch) :
    launch.atom = atom ∧ leaf = .deferred launch.action launch.resource ∧
      entry = some .launch := by
  cases delivers with
  | launched action resource =>
    obtain rfl := Option.some.inj requested
    exact ⟨rfl, rfl, rfl⟩
  | _ => cases requested

/-- Where nothing active is delivered, neither an entry nor a launch is left. -/
theorem nothing_left (delivers : Delivers scene atom leaf status added entry request)
    (inactive : status.isActive = false) : entry = none ∧ request = none := by
  have none : entry = none := by
    rw [← Option.isNone_iff_eq_none, ← Option.not_isSome, delivers.isSome_entry, inactive]
    rfl
  refine ⟨none, Option.eq_none_iff_forall_ne_some.mpr fun launch requested => ?_⟩
  obtain ⟨-, -, left⟩ := delivers.launched_of_request requested
  rw [none] at left
  cases left

end Delivers

/-- A visit of an action comes to what it delivers, and changes nothing else. -/
theorem visit_eq (atom : Nat) (leaf : Leaf) :
    ∃ status added entry request board seed,
      Delivers scene atom leaf status added entry request ∧
      course.visit scene atom leaf = (status, { course with
        board, seed
        calls := course.calls ++ added
        visited := course.visited ++ [atom]
        outstanding := course.outstanding ++ entry.toList.map fun value => ⟨atom, value⟩
        launches := course.launches ++ request.toList
        frontier := atom + 1 }) := by
  cases leaf with
  | immediate function =>
    obtain ⟨reply, replied⟩ : ∃ reply, reply = scene.reply course.board course.seed function
        (if scene.wasActive atom = true then Status.running else Status.launch) := ⟨_, rfl⟩
    refine ⟨_, _, _, _, reply.board, reply.seed, .called function reply.status, ?_⟩
    simp only [visit, deliver, call, ← replied, Status.normalized_eq_running_iff]
    by_cases active : reply.status.isActive = true
    · simp [active, stay]
    · simp [active]
  | deferred action resource =>
    simp only [visit, deliver]
    cases remembered : scene.remembered atom with
    | none =>
      exact ⟨_, _, _, _, course.board, course.seed, .launched action resource remembered,
        by simp [launch, stay]⟩
    | some status =>
      by_cases active : status.isActive = true
      · refine ⟨_, _, _, _, course.board, course.seed, .carried action resource ?_,
          by simp [active, stay]⟩
        simpa [Scene.wasActive, remembered] using active
      · rw [Bool.not_eq_true] at active
        exact ⟨_, _, _, _, course.board, course.seed,
          .ended action resource status remembered active, by simp [active]⟩
  | persistent slot =>
    simp only [visit, deliver]
    cases stored : scene.actor.slots[slot]? with
    | none =>
      exact ⟨_, _, _, _, course.board, course.seed, .idle slot .fail rfl,
        by simp [Status.normalized]⟩
    | some status =>
      by_cases active : status.isActive = true
      · exact ⟨_, _, _, _, course.board, course.seed, .kept slot status active,
          by simp [active, stay]⟩
      · rw [Bool.not_eq_true] at active
        exact ⟨_, _, _, _, course.board, course.seed, .idle slot status active,
          by simp [active]⟩

/-- A persistent action is left outstanding with the status of its slot, if that is active. -/
theorem outstanding_visit_persistent {slot : Nat} {status : Status} (atom : Nat)
    (stored : scene.actor.slots[slot]? = some status) :
    (course.visit scene atom (.persistent slot)).2.outstanding =
      course.outstanding ++ if status.isActive then [⟨atom, status⟩] else [] := by
  simp only [visit, deliver, stored]
  by_cases active : status.isActive = true
  · simp [active, stay]
  · simp [active]

end Course

end BehaviorTree
