import BehaviorTree.Proofs.Course.Immediate
import BehaviorTree.Proofs.Run.History

namespace BehaviorTree
open Course
variable {β : Type} {atom function : Nat}

/-- A call leaves the session open. -/
def Call.opens (call : Call) : Bool := decide (call.requested ≠ .cancel) && call.returned.isActive

/-- The session of an action is open after some calls. -/
def sessionOpen (atom : Nat) (calls : List Call) : Bool :=
  (callsFor atom calls).getLast?.any Call.opens

/-- The calls of all ticks of a history. -/
def callsOf (history : List TickRecord) : List Call := history.flatMap TickRecord.calls

/-- A call is in place if it asks to start while the session is closed, and to go on or to cancel
while it is open. -/
def Call.InPlace (call : Call) (isOpen : Bool) : Prop :=
  ((call.requested = .running ∨ call.requested = .cancel) ↔ isOpen = true) ∧
    (call.requested = .launch ↔ isOpen = false)

theorem Call.inPlace_visit (isOpen : Bool) (returned : Status) :
    Call.InPlace ⟨atom, function, visitRequest isOpen, returned⟩ isOpen := by
  cases isOpen <;> simp [InPlace, visitRequest]

theorem Call.inPlace_cancel (answer : Status) :
    Call.InPlace ⟨atom, function, .cancel, answer⟩ true := by
  simp [InPlace]

theorem Call.opens_visit (isOpen : Bool) (returned : Status) :
    Call.opens ⟨atom, function, visitRequest isOpen, returned⟩ = returned.isActive := by
  cases isOpen <;> simp [opens, visitRequest]

namespace Exchange
variable {isOpen : Bool} {earlier calls : List Call}

/-- The exchange of a tick decides whether the session is open afterwards. -/
theorem sessionOpen_append (exchange : Exchange atom function (sessionOpen atom earlier)
    (callsFor atom calls) isOpen) : sessionOpen atom (earlier ++ calls) = isOpen := by
  rw [sessionOpen, callsFor_append]
  generalize before : sessionOpen atom earlier = wasOpen at exchange
  generalize callsFor atom calls = made at exchange
  cases exchange with
  | silent =>
    rw [List.append_nil]
    exact before
  | visited returned => simp [Call.opens_visit]
  | canceled answer => simp [Call.opens]
  | left returned answer => simp [Call.opens]

/-- Every call of an exchange goes to the function of the action and is in place. -/
theorem inPlace (exchange : Exchange atom function (sessionOpen atom earlier)
    (callsFor atom calls) isOpen) {first later : List Call} {call : Call}
    (split : calls = first ++ call :: later) (own : call.atom = atom) :
    call.function = function ∧ call.InPlace (sessionOpen atom (earlier ++ first)) := by
  have made : callsFor atom calls = callsFor atom first ++ call :: callsFor atom later := by
    rw [split, callsFor_append]
    simp [callsFor, own]
  rw [made] at exchange
  have reached : sessionOpen atom (earlier ++ first) =
      (callsFor atom earlier ++ callsFor atom first).getLast?.any Call.opens := by
    rw [sessionOpen, callsFor_append]
  rw [reached]
  generalize before : sessionOpen atom earlier = wasOpen at exchange
  rw [sessionOpen] at before
  generalize callsFor atom earlier = past at before ⊢
  generalize callsFor atom first = front at exchange ⊢
  generalize callsFor atom later = back at exchange
  generalize whole : front ++ call :: back = list at exchange
  cases exchange with
  | silent => simp at whole
  | visited returned =>
    obtain ⟨rfl, same, -⟩ : front = [] ∧
        call = ⟨atom, function, visitRequest wasOpen, returned⟩ ∧ back = [] := by
      simpa [List.append_eq_cons_iff] using whole
    rw [List.append_nil, before, same]
    exact ⟨rfl, Call.inPlace_visit wasOpen returned⟩
  | canceled answer wasOpen_eq =>
    obtain ⟨rfl, same, -⟩ : front = [] ∧
        call = ⟨atom, function, .cancel, answer⟩ ∧ back = [] := by
      simpa [List.append_eq_cons_iff] using whole
    rw [List.append_nil, before, same, wasOpen_eq]
    exact ⟨rfl, Call.inPlace_cancel answer⟩
  | left returned answer active =>
    rcases List.append_eq_cons_iff.mp whole with ⟨rfl, visit⟩ | ⟨rest, rfl, behind⟩
    · rw [List.append_nil, before, (List.cons.inj visit).1]
      exact ⟨rfl, Call.inPlace_visit wasOpen returned⟩
    · obtain ⟨rfl, same, -⟩ : rest = [] ∧
          call = ⟨atom, function, .cancel, answer⟩ ∧ back = [] := by
        simpa [List.append_eq_cons_iff] using behind.symm
      rw [List.getLast?_concat, Option.any_some, Call.opens_visit, active, same]
      exact ⟨rfl, Call.inPlace_cancel answer⟩

end Exchange

namespace Taken
variable {scene : Scene β} {before after : Tick β} {course : Course β}

/-- In a tick, an action whose session was open is called, and the action is left outstanding
exactly if its session is open in the end. -/
theorem exchange (taken : Taken scene before course after)
    (stands : scene.shape.atom? atom = some (.immediate function)) :
    ∃ isOpen, Exchange atom function (scene.wasActive atom) (callsFor atom course.calls) isOpen ∧
      (scene.wasActive atom = true → callsFor atom course.calls ≠ []) ∧
      after.actor.outstanding.find? atom = if isOpen then some .running else none := by
  have found := taken.performs.outstanding_find? taken.sound atom
  have inside : atom < scene.shape.size := by
    rw [← Shape.atom?_isSome_iff, stands]
    rfl
  obtain ⟨isOpen, converses⟩ := (Course.Converses.opening scene atom function before.board).reaches
    taken.ready stands taken.reaches (.opening scene before.board)
  have called (active : scene.wasActive atom = true) : callsFor atom course.calls ≠ [] :=
    converses.settled.dealt_of_isEmpty taken.settled active inside
  refine ⟨isOpen, converses.exchange, called, ?_⟩
  by_cases stays : isOpen = true
  · have used : callsFor atom course.calls ≠ [] := by
      intro unused
      have exchange := converses.exchange
      rw [unused] at exchange
      cases exchange
      exact called stays unused
    rw [if_pos stays]
    exact (found .running).mpr ((converses.held .running).mpr ⟨rfl, stays, used⟩)
  · rw [if_neg stays]
    cases left : after.actor.outstanding.find? atom with
    | none => rfl
    | some status => exact absurd ((converses.held status).mp ((found status).mp left)).2.1 stays

end Taken

/-- A cancellation of an actor calls the active immediate actions, each of them once. -/
theorem Scene.callsFor_cancel {scene : Scene β} (ready : scene.Ready)
    (stands : scene.shape.atom? atom = some (.immediate function)) (board : β) :
    ∃ answer, callsFor atom (scene.cancel board).calls =
      if scene.wasActive atom = true then [⟨atom, function, .cancel, answer⟩] else [] := by
  have sound : Sound scene scene.shape.size
      ((scene.opening board).abandon ⟨0, scene.shape.size⟩) :=
    (Sound.opening scene board).abandon (Nat.zero_le _) (Nat.le_refl _)
      fun request member => by cases member
  have nonempty : ((scene.opening board).abandon ⟨0, scene.shape.size⟩).pending =
      ⟨0, scene.shape.size⟩ :=
    Span.cover_isEmpty rfl ((Span.isEmpty_eq_false_iff _).mpr scene.shape.size_pos)
  obtain ⟨answer, called⟩ := callsFor_drain ready stands sound (by
    rw [nonempty, Span.isEmpty_eq_false_iff]
    exact scene.shape.size_pos)
  have inside : atom < scene.shape.size := by
    rw [← Shape.atom?_isSome_iff, stands]
    rfl
  have covered : (Span.mk 0 scene.shape.size).contains atom = true := by
    rw [Span.contains_iff]
    exact ⟨Nat.zero_le _, inside⟩
  have canceled : atom ∈ ((scene.opening board).abandon ⟨0, scene.shape.size⟩).toCancel scene ↔
      scene.wasActive atom = true := by
    rw [mem_toCancel ready, nonempty]
    simp [covered, Course.abandon, Scene.opening]
  refine ⟨answer, ?_⟩
  rw [Scene.cancel, called]
  by_cases active : scene.wasActive atom = true
  · rw [if_pos (canceled.mpr active), if_pos active]
    rfl
  · rw [if_neg (mt canceled.mp active), if_neg active]
    rfl

namespace Run
variable {shape : Shape β} {history : List TickRecord} {actor : Actor}

theorem callsOf_append (history : List TickRecord) (record : TickRecord) :
    callsOf (history ++ [record]) = callsOf history ++ record.calls := by
  rw [callsOf, List.flatMap_append, List.flatMap_singleton]
  rfl

/-- What an actor remembers of an immediate action tells whether it is active. -/
theorem any_isActive_of_session {remembered : Option Status} {isOpen : Bool}
    (session : remembered = if isOpen then some .running else none) :
    remembered.any Status.isActive = isOpen := by
  cases isOpen <;> simp [session, Status.isActive]

/-- Along a run the calls for an immediate action are in place, and it is outstanding exactly while
its session is open. -/
theorem sessions (run : Run shape history actor)
    (stands : shape.atom? atom = some (.immediate function)) :
    (∀ earlier call later, callsOf history = earlier ++ call :: later → call.atom = atom →
      call.function = function ∧ call.InPlace (sessionOpen atom earlier)) ∧
    actor.outstanding.find? atom =
      if sessionOpen atom (callsOf history) then some .running else none := by
  refine run.induction (motive := fun history actor =>
    (∀ earlier call later, callsOf history = earlier ++ call :: later → call.atom = atom →
      call.function = function ∧ call.InPlace (sessionOpen atom earlier)) ∧
    actor.outstanding.find? atom =
      if sessionOpen atom (callsOf history) then some .running else none) ?_ ?_ ?_
  · intro id seed handle
    refine ⟨fun earlier call later split => ?_, rfl⟩
    exact absurd split (by simp [callsOf])
  · rintro history actor machine board time monitored kind course after - taken ⟨inPlace, session⟩
    obtain ⟨isOpen, exchange, -, left⟩ := taken.exchange stands
    let scene := (Tick.start machine actor board).scene ⟨shape, time, monitored⟩
    have wasOpen : scene.wasActive atom =
        sessionOpen atom (callsOf history) := any_isActive_of_session session
    have calls : after.calls = course.calls := taken.performs.calls
    rw [wasOpen] at exchange
    refine ⟨fun earlier call later split own => ?_, ?_⟩
    · rw [callsOf_append] at split
      have split : callsOf history ++ course.calls = earlier ++ call :: later := by
        rw [← split, ← calls]
        rfl
      rcases List.append_eq_append_iff.mp split with ⟨front, rfl, now⟩ | ⟨back, before, now⟩
      · exact exchange.inPlace now own
      · cases back with
        | nil =>
          rw [List.append_nil] at before
          have first : course.calls = [] ++ call :: later := now.symm
          have placed := exchange.inPlace first own
          rwa [List.append_nil, before] at placed
        | cons next rest =>
          obtain ⟨rfl, -⟩ := List.cons.inj now
          exact inPlace earlier call rest before own
    · rw [callsOf_append, left]
      have calls : (TickRecord.ofTick kind actor after).calls = course.calls := calls
      rw [calls, exchange.sessionOpen_append]
  · rintro history actor after reports ⟨inPlace, session⟩
    refine ⟨inPlace, ?_⟩
    rcases reports atom with same | ⟨deferred, -⟩
    · rw [same, session]
    · rw [stands] at deferred
      cases deferred

/-- The sessions of an immediate action. Along a run its calls are in place, and it is outstanding
exactly while its session is open. An update visits it or cancels it or both in this order, but
leaves it alone only if its session is closed; a cancellation cancels it exactly if its session is
open. -/
theorem immediate_sessions (run : Run shape history actor)
    (stands : shape.atom? atom = some (.immediate function)) :
    (∀ earlier call later, callsOf history = earlier ++ call :: later → call.atom = atom →
      call.function = function ∧ call.InPlace (sessionOpen atom earlier)) ∧
    (actor.outstanding.find? atom =
      if sessionOpen atom (callsOf history) then some .running else none) ∧
    ∀ machine : Machine, machine.Sized → machine.supports shape.needs = true →
      ∀ board time monitored,
        (∃ result after, (Tick.start machine actor board).update ⟨shape, time, monitored⟩ =
            .ok ⟨.ok result, after⟩ ∧
          Exchange atom function (sessionOpen atom (callsOf history)) (callsFor atom after.calls)
            (sessionOpen atom (callsOf history ++ after.calls)) ∧
          (sessionOpen atom (callsOf history) = true → callsFor atom after.calls ≠ [])) ∧
        ∃ after answer, (Tick.start machine actor board).cancel ⟨shape, time, monitored⟩ =
            .ok ⟨.ok .cancel, after⟩ ∧
          callsFor atom after.calls =
            if sessionOpen atom (callsOf history) then [⟨atom, function, .cancel, answer⟩]
            else [] := by
  obtain ⟨inPlace, session⟩ := run.sessions stands
  refine ⟨inPlace, session, fun machine sized covers board time monitored => ?_⟩
  let tick := Tick.start machine actor board
  have wasOpen : (tick.scene ⟨shape, time, monitored⟩).wasActive atom =
      sessionOpen atom (callsOf history) := any_isActive_of_session session
  obtain ⟨result, updated, updates, taken⟩ :=
    tick.update_taken ⟨shape, time, monitored⟩ run.steady sized covers
  obtain ⟨canceled, cancels, ended⟩ :=
    tick.cancel_taken ⟨shape, time, monitored⟩ run.steady sized covers
  refine ⟨⟨result, updated, updates, ?_⟩, ?_⟩
  · obtain ⟨isOpen, exchange, called, -⟩ := taken.exchange stands
    have calls : updated.calls =
        ((tick.scene ⟨shape, time, monitored⟩).update tick.board).2.calls :=
      taken.performs.calls
    rw [wasOpen] at exchange called
    rw [calls, exchange.sessionOpen_append]
    exact ⟨exchange, called⟩
  · obtain ⟨answer, called⟩ := Scene.callsFor_cancel ended.ready stands board
    have calls : canceled.calls = ((tick.scene ⟨shape, time, monitored⟩).cancel board).calls :=
      ended.performs.calls
    rw [wasOpen] at called
    exact ⟨canceled, answer, cancels, calls ▸ called⟩

/-- The immediate action of the sample starts in the first update, and the next one calls it again.
-/
theorem immediate_sessions_sample : ∃ history actor, Run Sample.shape history actor ∧
    callsFor 1 (callsOf history) = [⟨1, 0, .launch, .running⟩] ∧
    actor.outstanding.find? 1 = some .running ∧
    ∃ result after, (Tick.start (.forShape Sample.shape) actor 0).update Sample.setting =
      .ok ⟨.ok result, after⟩ ∧ callsFor 1 after.calls ≠ [] := by
  obtain ⟨result, after, next, -, taken⟩ := Sample.update_newcomer
  have called : callsFor 1 (callsOf [.ofTick .update Sample.newcomer after]) =
      [⟨1, 0, .launch, .running⟩] := by
    have calls := taken.performs.calls
    have made : callsOf [.ofTick .update Sample.newcomer after] = after.calls := by
      simp [callsOf, TickRecord.ofTick]
    rw [made, calls]
    decide +kernel
  have stands : Sample.shape.atom? 1 = some (.immediate 0) := rfl
  obtain ⟨-, session, ticks⟩ := immediate_sessions next stands
  have isOpen : sessionOpen 1 (callsOf [.ofTick .update Sample.newcomer after]) = true := by
    rw [sessionOpen, called]
    rfl
  obtain ⟨⟨status, updated, updates, -, used⟩, -⟩ :=
    ticks (.forShape Sample.shape) (Machine.sized_new _) (by decide) 0 .zero false
  exact ⟨_, _, next, called, by rw [session, isOpen]; rfl, status, updated, updates, used isOpen⟩

end Run

end BehaviorTree
