import BehaviorTree.Proofs.Course.Move

namespace BehaviorTree
open Course
variable {β : Type} {scene : Scene β} {atom function position : Nat} {course : Course β}

/-- The calls that are made for an action. -/
def callsFor (atom : Nat) (calls : List Call) : List Call :=
  calls.filter fun call => decide (call.atom = atom)

@[simp] theorem callsFor_append (atom : Nat) (first second : List Call) :
    callsFor atom (first ++ second) = callsFor atom first ++ callsFor atom second :=
  List.filter_append first second

/-- Calls for another action are not made for this one. -/
theorem callsFor_eq_nil {other : Nat} (different : other ≠ atom) {calls : List Call}
    (owned : ∀ call ∈ calls, call.atom = other) : callsFor atom calls = [] := by
  apply List.filter_eq_nil_iff.mpr
  intro call member
  rw [owned call member, decide_eq_true_eq]
  exact different

/-- What an action is asked when it is visited: to go on if its session is open, else to start. -/
def visitRequest (isOpen : Bool) : Status := if isOpen then .running else .launch

/-- The calls for an immediate action in one tick, whose session is open or not before them and is
open or not after them. -/
inductive Exchange (atom function : Nat) (isOpen : Bool) : List Call → Bool → Prop
  | silent : Exchange atom function isOpen [] isOpen
  | visited (returned : Status) :
      Exchange atom function isOpen [⟨atom, function, visitRequest isOpen, returned⟩]
        returned.isActive
  | canceled (answer : Status) (wasOpen : isOpen = true) :
      Exchange atom function isOpen [⟨atom, function, .cancel, answer⟩] false
  | left (returned answer : Status) (active : returned.isActive = true) :
      Exchange atom function isOpen
        [⟨atom, function, visitRequest isOpen, returned⟩, ⟨atom, function, .cancel, answer⟩] false

/-- How an immediate action stands in the course of a tick, and whether its session is open. -/
structure Course.Converses (scene : Scene β) (atom function position : Nat) (course : Course β)
    (isOpen : Bool) : Prop where
  exchange : Exchange atom function (scene.wasActive atom) (callsFor atom course.calls) isOpen
  held : ∀ value, ⟨atom, value⟩ ∈ course.outstanding ↔
    value = .running ∧ isOpen = true ∧ callsFor atom course.calls ≠ []
  ahead : course.frontier ≤ atom → callsFor atom course.calls = []
  settled : course.Settles scene atom position (callsFor atom course.calls ≠ [])

namespace Course

/-- A cancellation calls the action that it cancels, if that is an immediate one. -/
theorem callsFor_cancel (stands : scene.shape.atom? atom = some (.immediate function))
    (course : Course β) (other : Nat) :
    ∃ answer, callsFor atom (course.cancel scene other).calls =
      callsFor atom course.calls ++
        if other = atom then [⟨atom, function, .cancel, answer⟩] else [] := by
  by_cases same : other = atom
  · subst same
    refine ⟨(scene.reply course.board course.seed function .cancel).status, ?_⟩
    simp [cancel, call, stands, callsFor]
  · refine ⟨.cancel, ?_⟩
    rw [if_neg same, List.append_nil]
    unfold cancel
    split
    · simp [call, callsFor, same]
    all_goals rfl

/-- A cancellation of several actions calls each of them once. -/
theorem callsFor_cancelAll (stands : scene.shape.atom? atom = some (.immediate function))
    (course : Course β) {atoms : List Nat} (distinct : atoms.Nodup) :
    ∃ answer, callsFor atom (course.cancelAll scene atoms).calls =
      callsFor atom course.calls ++
        if atom ∈ atoms then [⟨atom, function, .cancel, answer⟩] else [] := by
  induction atoms generalizing course with
  | nil => exact ⟨.cancel, by simp [cancelAll]⟩
  | cons other rest ih =>
    obtain ⟨absent, distinct⟩ := List.nodup_cons.mp distinct
    obtain ⟨first, first_eq⟩ := course.callsFor_cancel stands other
    obtain ⟨later, later_eq⟩ := ih (course.cancel scene other) distinct
    have unfolded : course.cancelAll scene (other :: rest) =
        (course.cancel scene other).cancelAll scene rest := rfl
    rw [unfolded, later_eq, first_eq]
    by_cases same : other = atom
    · subst same
      exact ⟨first, by simp [absent]⟩
    · exact ⟨later, by simp [same, Ne.symm same]⟩

/-- A drain calls the immediate actions that it cancels. -/
theorem callsFor_drain (ready : scene.Ready)
    (stands : scene.shape.atom? atom = some (.immediate function))
    (sound : Sound scene position course) (nonempty : course.pending.isEmpty = false) :
    ∃ answer, callsFor atom (course.drain scene).calls =
      callsFor atom course.calls ++
        if atom ∈ course.toCancel scene then [⟨atom, function, .cancel, answer⟩] else [] := by
  simp only [drain, nonempty, Bool.false_eq_true, if_false]
  exact callsFor_cancelAll stands _ (nodup_toCancel ready sound.ascending fun entry member =>
    (sound.outstanding entry member).1)

/-- A visit calls only the action that is visited. -/
theorem Delivers.calls_atom {leaf : Leaf} {status : Status} {added : List Call}
    {entry : Option Status} {request : Option Request}
    (delivers : Delivers scene position leaf status added entry request) :
    ∀ call ∈ added, call.atom = position := by
  intro call member
  cases delivers with
  | called =>
    obtain rfl := List.mem_singleton.mp member
    rfl
  | _ => cases member

namespace Converses
variable {isOpen : Bool}

theorem opening (scene : Scene β) (atom function : Nat) (board : β) :
    (scene.opening board).Converses scene atom function 0 (scene.wasActive atom) where
  exchange := .silent
  held value := by simp [Scene.opening, callsFor]
  ahead _ := rfl
  settled := .opening scene atom _ _

theorem drain (ready : scene.Ready)
    (stands : scene.shape.atom? atom = some (.immediate function))
    (sound : Sound scene position course)
    (converses : course.Converses scene atom function position isOpen) :
    ∃ isOpen, (course.drain scene).Converses scene atom function position isOpen := by
  by_cases empty : course.pending.isEmpty = true
  · rw [drain_of_isEmpty scene empty]
    exact ⟨isOpen, converses⟩
  rw [Bool.not_eq_true] at empty
  obtain ⟨answer, called⟩ := callsFor_drain ready stands sound empty
  obtain ⟨board, seed, calls, drained⟩ := drain_eq scene empty
  rw [drained] at called ⊢
  have owes : scene.owes ⟨atom, .running⟩ = true := by simp [Scene.owes, Status.isActive]
  by_cases canceled : atom ∈ course.toCancel scene
  · rw [if_pos canceled] at called
    refine ⟨false, ?_, fun value => ?_, fun ahead => ?_, fun _ _ => Or.inl (by simp [called])⟩
    · rw [called]
      rcases (mem_toCancel ready atom).mp canceled with
        ⟨-, ahead, active⟩ | ⟨⟨_, value⟩, member, rfl, -⟩
      · rw [converses.ahead ahead, List.nil_append]
        exact .canceled answer active
      · obtain ⟨-, wasOpen, used⟩ := (converses.held value).mp member
        have exchange := converses.exchange
        generalize callsFor _ course.calls = before at exchange used
        cases exchange with
        | silent => exact absurd rfl used
        | visited returned => exact .left returned answer wasOpen
        | canceled => cases wasOpen
        | left => cases wasOpen
    · simp only [Bool.false_eq_true, false_and, and_false, iff_false, List.mem_filter, not_and,
        decide_eq_true_eq, Nat.not_lt]
      intro member
      rcases (mem_toCancel ready atom).mp canceled with ⟨-, ahead, -⟩ | ⟨-, -, -, behind, -⟩
      · exact absurd (converses.ahead ahead) ((converses.held value).mp member).2.2
      · exact behind
    · have before : course.frontier ≤ atom := Nat.le_trans (Nat.le_max_left _ _) ahead
      have beyond : course.pending.stop ≤ atom := Nat.le_trans (Nat.le_max_right _ _) ahead
      rcases (mem_toCancel ready atom).mp canceled with ⟨covered, -, -⟩ | ⟨entry, member, rfl, -⟩
      · have := (Span.contains_iff _ _).mp covered
        omega
      · have := (sound.outstanding entry member).1
        omega
  · rw [if_neg canceled, List.append_nil] at called
    rw [mem_toCancel ready atom, not_or] at canceled
    refine ⟨isOpen, ?_, fun value => ?_, fun ahead => ?_, fun active before => ?_⟩
    · rw [called]
      exact converses.exchange
    · rw [called, ← converses.held value, List.mem_filter, decide_eq_true_eq]
      apply and_iff_left_of_imp
      intro member
      by_contra behind
      obtain ⟨rfl, -⟩ := (converses.held value).mp member
      exact canceled.2 ⟨_, member, rfl, Nat.not_lt.mp behind, owes⟩
    · rw [called]
      exact converses.ahead (Nat.le_trans (Nat.le_max_left _ _) ahead)
    · rw [called]
      rcases converses.settled active before with used | ⟨ahead, covered⟩
      · exact Or.inl used
      · exact absurd ⟨covered, ahead, active⟩ canceled.1

theorem visit {leaf : Leaf} (stands : scene.shape.atom? atom = some (.immediate function))
    (here : scene.shape.atom? position = some leaf.atom)
    (empty : course.pending.isEmpty = true) (sound : Sound scene position course)
    (converses : course.Converses scene atom function position isOpen) :
    ∃ isOpen,
      (course.visit scene position leaf).2.Converses scene atom function (position + 1) isOpen := by
  obtain ⟨status, added, entry, request, board, seed, delivers, visited⟩ :=
    course.visit_eq scene position leaf
  have frontier := sound.frontier_le
  rw [visited]
  by_cases same : position = atom
  · subst same
    obtain rfl : leaf = .immediate function := by
      rw [here] at stands
      cases leaf <;> cases stands
      rfl
    cases delivers with
    | called _ returned =>
      have silent := converses.ahead frontier
      have fresh (value : Status) : ⟨position, value⟩ ∉ course.outstanding := fun member =>
        ((converses.held value).mp member).2.2 silent
      have calls : callsFor position (course.calls ++ [⟨position, function,
          if scene.wasActive position = true then .running else .launch, returned⟩]) =
            [⟨position, function, visitRequest (scene.wasActive position), returned⟩] := by
        rw [callsFor_append, silent]
        simp [callsFor, visitRequest]
      refine ⟨returned.isActive, ?_, fun value => ?_, fun ahead => ?_, fun _ _ => Or.inl ?_⟩
      · rw [calls]
        exact .visited returned
      · rw [calls]
        by_cases active : returned.isActive = true
        · simp [active, fresh]
        · simp [active, fresh]
      · exact absurd ahead (Nat.not_succ_le_self position)
      · rw [calls]
        exact List.cons_ne_nil _ _
  · have calls : callsFor atom (course.calls ++ added) = callsFor atom course.calls := by
      rw [callsFor_append, callsFor_eq_nil same delivers.calls_atom, List.append_nil]
    refine ⟨isOpen, ?_, fun value => ?_, fun ahead => ?_, fun active before => ?_⟩
    · rw [calls]
      exact converses.exchange
    · rw [calls, ← converses.held value]
      simp [same]
    · have ahead : position + 1 ≤ atom := ahead
      rw [calls]
      exact converses.ahead (by omega)
    · rw [calls]
      exact Or.inl (converses.settled.dealt_of_isEmpty empty active (by omega))

/-- What is abandoned is settled up to its end. -/
theorem abandon (converses : course.Converses scene atom function position isOpen)
    {start stop : Nat} (frontier : course.frontier ≤ position) (from_ : start ≤ position) :
    (course.abandon ⟨start, stop⟩).Converses scene atom function stop isOpen where
  exchange := converses.exchange
  held := converses.held
  ahead := converses.ahead
  settled := converses.settled.abandon frontier from_

/-- Every move goes on with the conversation. -/
theorem move (ready : scene.Ready)
    (stands : scene.shape.atom? atom = some (.immediate function)) {later : Nat}
    {after : Course β}
    (move : Move scene (fun index => scene.wasActive index = false) position course later after)
    (sound : Sound scene position course)
    (converses : course.Converses scene atom function position isOpen) :
    ∃ isOpen, after.Converses scene atom function later isOpen := by
  cases move with
  | drain => exact converses.drain ready stands sound
  | enter here =>
    refine ⟨isOpen, converses.exchange, converses.held, converses.ahead, ?_⟩
    apply converses.settled.pass
    intro reached before
    obtain rfl : atom = position := by omega
    rw [stands] at here
    cases here
  | visit here empty => exact converses.visit stands here empty sound
  | pass _ _ skipped =>
    exact ⟨isOpen, { converses with settled := converses.settled.pass (skipped atom) }⟩
  | record => exact ⟨isOpen, converses.exchange, converses.held, converses.ahead, converses.settled⟩
  | abandon => exact ⟨isOpen, converses.abandon sound.frontier_le (Nat.le_refl _)⟩
  | @fail decider _ _ entered _ passed =>
    have abandoned : (course.abandon ⟨decider, later⟩).Converses scene atom function later isOpen :=
      converses.abandon sound.frontier_le (Nat.le_of_lt passed)
    exact ⟨isOpen, abandoned.exchange, abandoned.held, abandoned.ahead, abandoned.settled⟩

/-- A run of moves goes on with the conversation. -/
theorem reaches (ready : scene.Ready)
    (stands : scene.shape.atom? atom = some (.immediate function)) {later : Nat}
    {after : Course β}
    (reaches : Reaches scene (fun index => scene.wasActive index = false) position course later
      after)
    (sound : Sound scene position course)
    (converses : course.Converses scene atom function position isOpen) :
    ∃ isOpen, after.Converses scene atom function later isOpen := by
  apply sound.invariant ready _ reaches ⟨isOpen, converses⟩
  rintro position course later after last sound ⟨isOpen, converses⟩
  exact Converses.move ready stands last sound converses

end Converses

end Course

end BehaviorTree
