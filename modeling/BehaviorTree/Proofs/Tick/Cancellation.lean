import BehaviorTree.Proofs.Tick.Safety

namespace BehaviorTree
open Course Ordered
variable {β : Type}

/-- The atoms of a shape at which an actor has an active entry, in ascending order. -/
def Actor.activeAtoms (actor : Actor) (shape : Shape β) : List Nat :=
  (actor.outstanding.entries.toList.filter fun entry =>
    entry.value.isActive && (shape.atom? entry.atom).isSome).map Entry.atom

/-- On whose behalf a function is called, which one, and what it is asked. -/
def Call.asked (call : Call) : Nat × Nat × Status := (call.atom, call.function, call.requested)

/-- The calls that tell the immediate actions among some atoms to cancel. -/
def Shape.cancelCalls (shape : Shape β) (atoms : List Nat) : List (Nat × Nat × Status) :=
  atoms.filterMap fun atom =>
    match shape.atom? atom with
    | some (.immediate function) => some (atom, function, .cancel)
    | some (.deferred _ _) | some (.persistent _) | some (.decider _ _) | none => none

/-- A tick has told some atoms, and no others, to cancel, the last of them first, and has left an
idle actor. -/
structure Tick.CancelsAll (setting : Setting β) (before : Tick β) (atoms : List Nat)
    (after : Tick β) : Prop where
  calls : ∃ calls, after.calls = before.calls ++ calls ∧
    calls.map Call.asked = setting.shape.cancelCalls atoms.reverse ∧
    (calls.map Call.atom).Pairwise (· > ·)
  requests : (after.machine.takeRequests before.actor.id).1 =
    ((before.scene setting).cancelRequests atoms).map (.ofRequest before.actor.id .cancel)
  ascending : ((after.machine.takeRequests before.actor.id).1.map
    ActorRequest.atom).Pairwise (· < ·)
  slots : ∀ slot, after.actor.slots[slot]? = before.actor.slots[slot]?.map fun status =>
    if ∃ atom ∈ atoms, setting.shape.atom? atom = some (.persistent slot) then .cancel else status
  id : after.actor.id = before.actor.id
  handle : after.actor.handle = before.actor.handle
  idle : after.actor.isIdle = true

attribute [ext] Actor

/-- Storage without entries stays as it is when no entries are written. -/
theorem SparseStates.overwrite_empty {ν : Type} {states : SparseStates ν}
    (none : states.entries = #[]) : states.overwrite #[] = states := by
  obtain ⟨entries, stale⟩ := states
  obtain rfl : entries = #[] := none
  simp [overwrite]

/-- A tick has changed nothing outside its machine, and has asked nothing of anybody. -/
structure Tick.Untouched (before after : Tick β) : Prop where
  calls : after.calls = before.calls
  board : after.board = before.board
  actor : after.actor = before.actor
  requests : (after.machine.takeRequests before.actor.id).1 = []
  changes : after.machine.changes.contents = #[]

namespace Actor
variable {actor : Actor} {shape : Shape β}

theorem ascending_activeAtoms (ascending : Ascending actor.outstanding.entries.toList) :
    (actor.activeAtoms shape).Pairwise (· < ·) :=
  List.pairwise_map.mpr (ascending.filter _)

theorem isIdle_iff (actor : Actor) : actor.isIdle = true ↔
    actor.continuations.entries = #[] ∧ actor.outstanding.entries = #[] := by
  simp [isIdle, SparseStates.count]

/-- An idle actor has nothing active. -/
theorem activeAtoms_of_isIdle (idle : actor.isIdle = true) : actor.activeAtoms shape = [] := by
  simp [activeAtoms, (actor.isIdle_iff.mp idle).2]

end Actor

/-- The calls for some atoms are made on their behalf, in their order. -/
theorem Shape.pairwise_cancelCalls {shape : Shape β} {atoms : List Nat}
    (descending : atoms.Pairwise (· > ·)) :
    ((shape.cancelCalls atoms).map Prod.fst).Pairwise (· > ·) := by
  have kept : ((shape.cancelCalls atoms).map Prod.fst).Sublist atoms := by
    clear descending
    induction atoms with
    | nil => exact .slnil
    | cons atom rest ih =>
      simp only [cancelCalls, List.filterMap_cons]
      split
      · exact .cons _ ih
      · next made =>
        split at made
        · obtain rfl := Option.some.inj made
          exact .cons_cons _ ih
        all_goals cases made
  exact descending.sublist kept

namespace Course
variable {scene : Scene β}

/-- A cancellation of several atoms calls the immediate actions among them, one after the other. -/
theorem asked_cancelAll (atoms : List Nat) (course : Course β) :
    (course.cancelAll scene atoms).calls.map Call.asked =
      course.calls.map Call.asked ++ scene.shape.cancelCalls atoms := by
  induction atoms generalizing course with
  | nil => simp [cancelAll, Shape.cancelCalls]
  | cons atom rest ih =>
    have unfolded : course.cancelAll scene (atom :: rest) =
        (course.cancel scene atom).cancelAll scene rest := rfl
    have first : (course.cancel scene atom).calls.map Call.asked =
        course.calls.map Call.asked ++ scene.shape.cancelCalls [atom] := by
      unfold cancel
      split
      · next function stands => simp [call, Call.asked, Shape.cancelCalls, stands]
      all_goals next stands => simp [Shape.cancelCalls, stands]
    rw [unfolded, ih, first, List.append_assoc, Shape.cancelCalls, Shape.cancelCalls,
      Shape.cancelCalls, ← List.filterMap_append, List.singleton_append]

end Course

namespace Scene
variable (scene : Scene β) (board : β)

/-- The course of a cancellation before anything is canceled: the whole shape is pending. -/
def givenUp : Course β := { scene.opening board with pending := ⟨0, scene.shape.size⟩ }

theorem isEmpty_pending_givenUp : (scene.givenUp board).pending.isEmpty = false :=
  (Span.isEmpty_eq_false_iff _).mpr scene.shape.size_pos

theorem cancel_eq_drain : scene.cancel board = (scene.givenUp board).drain scene := by
  rw [Scene.cancel, abandon,
    Span.cover_isEmpty rfl ((Span.isEmpty_eq_false_iff _).mpr scene.shape.size_pos), givenUp]

/-- When the whole shape is given up, the active atoms of the actor are to be canceled. -/
theorem toCancel_givenUp :
    (scene.givenUp board).toCancel scene = (scene.actor.activeAtoms scene.shape).reverse := by
  have same (entry : Entry Status) :
      ((Span.mk 0 scene.shape.size).contains entry.atom && decide (0 ≤ entry.atom) &&
        entry.value.isActive) =
      (entry.value.isActive && (scene.shape.atom? entry.atom).isSome) := by
    rw [Bool.eq_iff_iff]
    simp [Span.contains_iff, Shape.atom?_isSome_iff, and_comm]
  rw [toCancel, Actor.activeAtoms, ← List.filter_congr fun entry _ => same entry]
  simp [givenUp, opening]

/-- The course of a cancellation records, launches and leaves nothing. -/
theorem cancel_eq : ∃ other seed calls frontier, scene.cancel board =
    { board := other, seed, calls, frontier
      canceled := (scene.actor.activeAtoms scene.shape).reverse } := by
  obtain ⟨other, seed, calls, drained⟩ := drain_eq scene (scene.isEmpty_pending_givenUp board)
  rw [toCancel_givenUp] at drained
  rw [cancel_eq_drain]
  exact ⟨other, seed, calls, _, drained⟩

/-- The course of a cancellation has nothing to do if the actor is idle. -/
theorem cancel_of_isIdle (idle : scene.actor.isIdle = true) :
    scene.cancel board = { scene.opening board with frontier := scene.shape.size } := by
  rw [cancel_eq_drain, drain, scene.isEmpty_pending_givenUp board, toCancel_givenUp,
    Actor.activeAtoms_of_isIdle idle]
  simp [cancelAll, givenUp, opening]

/-- A cancellation calls the active immediate actions, the largest first. -/
theorem asked_cancel : (scene.cancel board).calls.map Call.asked =
    scene.shape.cancelCalls (scene.actor.activeAtoms scene.shape).reverse := by
  rw [cancel_eq_drain, drain, scene.isEmpty_pending_givenUp board, toCancel_givenUp]
  simp only [Bool.false_eq_true, if_false]
  rw [asked_cancelAll]
  rfl

end Scene

namespace Performs
variable {setting : Setting β} {before after : Tick β}

/-- Each slot is canceled with the persistent action that it belongs to, and stays otherwise. -/
theorem slot_eq {scene : Scene β} {course : Course β}
    (performs : Performs scene before course after) (slot : Nat) :
    after.actor.slots[slot]? = scene.actor.slots[slot]?.map fun status =>
      if ∃ atom ∈ course.canceled, scene.shape.atom? atom = some (.persistent slot) then .cancel
      else status := by
  rw [performs.slots, Scene.slotsAfter, Array.getElem?_mapIdx]
  congr 1
  funext status
  refine if_congr ?_ rfl rfl
  simp only [Option.any_eq_true, decide_eq_true_eq, Shape.slotAtoms_getElem?_iff]
  exact exists_congr fun atom => and_comm

/-- What the course of a cancellation performs is the cancellation of the active atoms. -/
theorem cancelsAll (fit : before.Fit setting)
    (performs : Performs (before.scene setting) before
      ((before.scene setting).cancel before.board) after) :
    before.CancelsAll setting (before.actor.activeAtoms setting.shape) after := by
  let scene := before.scene setting
  let atoms := before.actor.activeAtoms setting.shape
  have ascending : atoms.Pairwise (· < ·) :=
    Actor.ascending_activeAtoms (before.actor.isAscending_iff.mp fit.ascending).2
  have asked : (scene.cancel before.board).calls.map Call.asked =
      scene.shape.cancelCalls atoms.reverse := scene.asked_cancel before.board
  have called : ((scene.cancel before.board).calls.map Call.atom).Pairwise (· > ·) := by
    have fields : (scene.cancel before.board).calls.map Call.atom =
        ((scene.cancel before.board).calls.map Call.asked).map Prod.fst := by
      rw [List.map_map]
      rfl
    rw [fields, asked]
    exact Shape.pairwise_cancelCalls (List.pairwise_reverse.mpr ascending)
  obtain ⟨other, seed, calls, frontier, canceled⟩ := scene.cancel_eq before.board
  have requests : (after.machine.takeRequests before.actor.id).1 =
      (scene.cancelRequests atoms).map (.ofRequest before.actor.id .cancel) := by
    have launches := performs.launches
    have cancels := performs.cancels
    change after.machine.requests.launches.toList = (scene.cancel before.board).launches at launches
    change after.machine.requests.cancels.toList =
      (scene.cancelRequests (scene.cancel before.board).canceled).reverse at cancels
    rw [canceled] at launches cancels
    rw [Scene.cancelRequests, List.filterMap_reverse, List.reverse_reverse] at cancels
    rw [Machine.takeRequests, RequestQueue.forActor, launches, cancels, List.map_nil,
      List.append_nil]
    rfl
  refine ⟨⟨_, performs.calls, asked, called⟩, requests, ?_, fun slot => ?_, performs.id,
    performs.handle, ?_⟩
  · have fields : (after.machine.takeRequests before.actor.id).1.map ActorRequest.atom =
        (scene.cancelRequests atoms).map Request.atom := by
      rw [requests, List.map_map]
      rfl
    rw [fields, Scene.atoms_cancelRequests]
    exact ascending.filter _
  · rw [performs.slot_eq]
    change before.actor.slots[slot]?.map (fun status =>
      if ∃ atom ∈ (scene.cancel before.board).canceled,
        setting.shape.atom? atom = some (.persistent slot) then .cancel else status) = _
    simp only [canceled, List.mem_reverse]
    rfl
  · have continuations := performs.continuations
    have outstanding := performs.outstanding
    change after.actor.continuations.entries =
      sortByKey (scene.cancel before.board).continuations.toArray at continuations
    change after.actor.outstanding.entries =
      (scene.cancel before.board).outstanding.toArray at outstanding
    rw [canceled] at continuations outstanding
    exact after.actor.isIdle_iff.mpr ⟨continuations.trans sortByKey_empty, outstanding⟩

/-- What the course of a cancellation performs on an idle actor changes nothing. -/
theorem untouched (idle : before.actor.isIdle = true)
    (performs : Performs (before.scene setting) before
      ((before.scene setting).cancel before.board) after) : before.Untouched after := by
  have canceled : (before.scene setting).cancel before.board =
      { (before.scene setting).opening before.board with frontier := setting.shape.size } :=
    Scene.cancel_of_isIdle (before.scene setting) before.board idle
  rw [canceled] at performs
  obtain ⟨continuations, outstanding⟩ := before.actor.isIdle_iff.mp idle
  have launches : after.machine.requests.launches.toList = [] := performs.launches
  have cancels : after.machine.requests.cancels.toList = [] := performs.cancels
  have changes : after.machine.changes.contents.toList.Perm [] := performs.changes
  constructor
  case calls =>
    exact performs.calls.trans (List.append_nil _)
  case board =>
    exact performs.board
  case actor =>
    apply Actor.ext
    · exact performs.id
    · exact performs.handle
    · exact performs.seed
    · rw [performs.slots]
      ext slot inside other
      · simp [Scene.slotsAfter, Tick.scene]
      · simp [Scene.slotsAfter, Scene.opening, Tick.scene]
    · have none : after.actor.continuations.entries = #[] :=
        performs.continuations.trans sortByKey_empty
      rw [performs.continuations_written, none]
      exact SparseStates.overwrite_empty continuations
    · have none : after.actor.outstanding.entries = #[] := performs.outstanding
      rw [performs.outstanding_written, none]
      exact SparseStates.overwrite_empty outstanding
  case requests =>
    rw [Machine.takeRequests, RequestQueue.forActor, launches, cancels]
    rfl
  case changes =>
    exact Array.toList_eq_nil_iff.mp (List.perm_nil.mp changes)

/-- A machine that has served one tick can serve the next. -/
theorem covers {needs : Capacities} {scene : Scene β} {course : Course β}
    (performs : Performs scene before course after)
    (covers : before.machine.supports needs = true) : after.machine.supports needs = true := by
  rw [Machine.supports, performs.capacities]
  exact covers

end Performs

namespace Tick
variable {setting : Setting β} {tick : Tick β}

/-- A cancellation of an idle actor changes nothing. -/
theorem Fit.cancel_untouched (fit : tick.Fit setting) (idle : tick.actor.isIdle = true) :
    ∃ after, tick.cancel setting = .ok ⟨.ok .cancel, after⟩ ∧ tick.Untouched after := by
  obtain ⟨after, completes, performs⟩ := fit.cancel_performs
  exact ⟨after, completes.complete_eq, performs.untouched idle⟩

/-- A cancellation of whatever fits answers that, tells exactly the active atoms of the actor to
cancel, and leaves the machine ready for more. When the actor is canceled once more, by whatever
machine, nothing happens. -/
theorem cancel_cancelsAll {β : Type} (tick : Tick β) (setting : Setting β)
    (fit : tick.Fit setting) :
    (tick.actor.activeAtoms setting.shape).Pairwise (· < ·) ∧
    ∃ after, tick.cancel setting = .ok ⟨.ok .cancel, after⟩ ∧
      tick.CancelsAll setting (tick.actor.activeAtoms setting.shape) after ∧
      after.machine.Sized ∧ after.machine.supports setting.shape.needs = true ∧
      ∀ (machine : Machine) (time : Time) (monitored : Bool), machine.Sized →
        machine.supports setting.shape.needs = true →
        ∃ again, Tick.cancel { after with machine } ⟨setting.shape, time, monitored⟩ =
            .ok ⟨.ok .cancel, again⟩ ∧
          Tick.Untouched { after with machine } again := by
  obtain ⟨after, completes, performs⟩ := fit.cancel_performs
  have cancelsAll := performs.cancelsAll fit
  have ascending := (tick.actor.isAscending_iff.mp fit.ascending).2
  refine ⟨Actor.ascending_activeAtoms ascending, after, completes.complete_eq, cancelsAll,
    performs.sized, performs.covers fit.covers, ?_⟩
  intro machine time monitored sized covers
  have idle := cancelsAll.idle
  obtain ⟨continuations, outstanding⟩ := after.actor.isIdle_iff.mp idle
  have next : Tick.Fit { after with machine } ⟨setting.shape, time, monitored⟩ := by
    refine ⟨sized, covers, ?_, ?_, ?_⟩
    · have supports := fit.supports
      rw [Actor.supports_iff] at supports ⊢
      simpa [performs.slots, performs.continuations_capacity, performs.outstanding_capacity,
        Scene.slotsAfter, Tick.scene] using supports
    · rw [Actor.isAscending_iff]
      simp [continuations, outstanding, Ascending]
    · simp [outstanding]
  exact next.cancel_untouched idle

/-- Both active actions of the sample are told to cancel, and nothing else happens. -/
theorem cancel_cancelsAll_sample : Sample.tick.Fit Sample.setting ∧
    ∃ after, Sample.tick.cancel Sample.setting = .ok ⟨.ok .cancel, after⟩ ∧
      after.calls.map Call.asked = [(1, 0, .cancel)] ∧
      (after.machine.takeRequests 5).1 = [⟨5, 7, 3, 2, .cancel⟩] ∧
      ∃ again, after.cancel Sample.setting = .ok ⟨.ok .cancel, again⟩ ∧
        after.Untouched again := by
  obtain ⟨-, after, canceled, ⟨⟨calls, called, asked, -⟩, requests, -⟩, sized, covers, more⟩ :=
    cancel_cancelsAll Sample.tick Sample.setting Sample.fit
  have nothing : Sample.tick.calls = [] := rfl
  rw [nothing, List.nil_append] at called
  refine ⟨Sample.fit, after, canceled, ?_, requests, more after.machine .zero false sized covers⟩
  rw [called]
  exact asked

end Tick

end BehaviorTree
