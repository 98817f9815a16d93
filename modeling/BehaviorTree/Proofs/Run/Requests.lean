import BehaviorTree.Proofs.Course.Deferred
import BehaviorTree.Proofs.Course.Room
import BehaviorTree.Proofs.Run.History

namespace BehaviorTree
open Course
variable {β : Type}

/-- Where keys are different, one element has the key of a given one. -/
theorem filter_key_eq_singleton {α : Type} {keyOf : α → Nat} {elements : List α}
    (distinct : (elements.map keyOf).Nodup) {element : α} (member : element ∈ elements) :
    elements.filter (fun other => decide (keyOf other = keyOf element)) = [element] := by
  induction elements with
  | nil => cases member
  | cons first rest ih =>
    obtain ⟨absent, distinct⟩ := List.nodup_cons.mp distinct
    rcases List.mem_cons.mp member with rfl | later
    · have others : rest.filter (fun other => decide (keyOf other = keyOf element)) = [] := by
        apply List.filter_eq_nil_iff.mpr
        intro other present
        rw [decide_eq_true_eq]
        intro same
        exact absent (List.mem_map.mpr ⟨other, present, same⟩)
      rw [List.filter_cons_of_pos (by simp), others]
    · have different : keyOf first ≠ keyOf element := by
        intro same
        exact absent (List.mem_map.mpr ⟨element, later, same.symm⟩)
      rw [List.filter_cons_of_neg (by simpa using different), ih distinct later]

namespace TickRecord

/-- The requests of a tick for an atom. -/
def requestsFor (record : TickRecord) (atom : Nat) : List ActorRequest :=
  record.requests.filter fun request => decide (request.atom = atom)

/-- The requests that are due for a deferred action: its launch, if it had no entry and now has one,
and its cancel, if it was active and now has no entry. -/
def due (record : TickRecord) (atom action resource : Nat) : List ActorRequest :=
  match record.before.outstanding.find? atom, record.after.outstanding.find? atom with
  | none, some _ => [⟨record.before.id, action, resource, atom, .launch⟩]
  | some status, none =>
      if status.isActive then [⟨record.before.id, action, resource, atom, .cancel⟩] else []
  | none, none | some _, some _ => []

end TickRecord

namespace Taken
variable {scene : Scene β} {before after : Tick β} {course : Course β} {atom action resource : Nat}

theorem accounts (taken : Taken scene before course after)
    (stands : scene.shape.atom? atom = some (.deferred action resource)) :
    course.Accounts scene atom scene.shape.size :=
  (Course.Accounts.opening scene atom before.board).reaches taken.ready stands taken.reaches
    (.opening scene before.board)

/-- The status that a deferred action is left with: it is launched, or it goes on running. -/
theorem status_eq (taken : Taken scene before course after)
    (stands : scene.shape.atom? atom = some (.deferred action resource)) {status : Status}
    (left : after.actor.outstanding.find? atom = some status) :
    status = .launch ∧ scene.remembered atom = none ∨
      status = .running ∧ scene.wasActive atom = true :=
  (taken.accounts stands).entries status
    ((taken.performs.outstanding_find? taken.sound atom status).mp left)

/-- A deferred action has a launch exactly if it becomes outstanding. -/
theorem launches_for (taken : Taken scene before course after)
    (stands : scene.shape.atom? atom = some (.deferred action resource)) :
    course.launches.filter (fun request => decide (request.atom = atom)) =
      if scene.remembered atom = none ∧ (after.actor.outstanding.find? atom).isSome then
        [⟨action, resource, atom⟩] else [] := by
  have sound := taken.sound
  have accounts := taken.accounts stands
  have found := taken.performs.outstanding_find? sound atom
  by_cases launched : ∃ request ∈ course.launches, request.atom = atom
  · obtain ⟨request, member, rfl⟩ := launched
    obtain ⟨held, at_, -⟩ := sound.launches request member
    have unknown : scene.remembered request.atom = none := by
      rcases accounts.entries .launch held with ⟨-, unknown⟩ | ⟨other, -⟩
      · exact unknown
      · cases other
    have distinct : (course.launches.map Request.atom).Nodup := by
      rw [List.Nodup, List.pairwise_map]
      exact sound.ordered.imp fun less => Nat.ne_of_lt less
    have request_eq : request = ⟨action, resource, request.atom⟩ := by
      rw [stands] at at_
      injection at_ with at_
      injection at_ with action_eq resource_eq
      rw [action_eq, resource_eq]
    rw [if_pos ⟨unknown, by rw [(found .launch).mpr held]; rfl⟩,
      filter_key_eq_singleton distinct member, ← request_eq]
  · have none_launched :
        course.launches.filter (fun request => decide (request.atom = atom)) = [] := by
      apply List.filter_eq_nil_iff.mpr
      intro request member
      rw [decide_eq_true_eq]
      exact fun same => launched ⟨request, member, same⟩
    rw [none_launched, if_neg]
    rintro ⟨unknown, present⟩
    obtain ⟨status, left⟩ := Option.isSome_iff_exists.mp present
    rcases taken.status_eq stands left with ⟨rfl, -⟩ | ⟨-, active⟩
    · rcases accounts.launched ((found .launch).mp left) with requested | ⟨nonempty, -⟩
      · exact launched requested
      · rw [taken.settled] at nonempty
        cases nonempty
    · simp [Scene.wasActive, unknown] at active

/-- A deferred action is canceled exactly if it was active and is given up. -/
theorem canceled_iff (taken : Taken scene before course after)
    (stands : scene.shape.atom? atom = some (.deferred action resource)) :
    atom ∈ course.canceled ↔
      scene.wasActive atom = true ∧ after.actor.outstanding.find? atom = none := by
  have sound := taken.sound
  have accounts := taken.accounts stands
  have found := taken.performs.outstanding_find? sound atom
  constructor
  · intro canceled
    refine ⟨accounts.canceled canceled, ?_⟩
    cases left : after.actor.outstanding.find? atom with
    | none => rfl
    | some status =>
      have held := (found status).mp left
      exact absurd rfl ((List.nodup_append.mp sound.single).2.2 atom canceled atom
        (List.mem_map.mpr ⟨_, held, rfl⟩))
  · rintro ⟨active, gone⟩
    have inside : atom < scene.shape.size := by
      rw [← Shape.atom?_isSome_iff, stands]
      rfl
    rcases accounts.settled.dealt_of_isEmpty taken.settled active inside with held | canceled
    · rw [(found .running).mpr held] at gone
      cases gone
    · exact canceled

/-- A deferred action has a cancel exactly if it was active and is given up. -/
theorem cancels_for (taken : Taken scene before course after)
    (stands : scene.shape.atom? atom = some (.deferred action resource)) :
    (scene.cancelRequests course.canceled).filter (fun request => decide (request.atom = atom)) =
      if scene.wasActive atom = true ∧ after.actor.outstanding.find? atom = none then
        [⟨action, resource, atom⟩] else [] := by
  have distinct := (List.nodup_append.mp taken.sound.requests_nodup).2.1
  have canceled_iff := taken.canceled_iff stands
  by_cases canceled : atom ∈ course.canceled
  · have member : ⟨action, resource, atom⟩ ∈ scene.cancelRequests course.canceled := by
      refine List.mem_filterMap.mpr ⟨atom, canceled, ?_⟩
      rw [stands]
    rw [if_pos (canceled_iff.mp canceled), ← filter_key_eq_singleton distinct member]
  · rw [if_neg fun given => canceled (canceled_iff.mpr given)]
    apply List.filter_eq_nil_iff.mpr
    intro request member
    rw [decide_eq_true_eq]
    rintro rfl
    have present := List.mem_map_of_mem (f := Request.atom) member
    rw [Scene.atoms_cancelRequests] at present
    exact canceled (List.mem_filter.mp present).1

/-- The requests of a tick for a deferred action are those that are due. -/
theorem requestsFor_eq (taken : Taken scene before course after) (kind : TickKind)
    (stands : scene.shape.atom? atom = some (.deferred action resource)) :
    (TickRecord.ofTick kind scene.actor after).requestsFor atom =
      (TickRecord.ofTick kind scene.actor after).due atom action resource := by
  have launches := taken.launches_for stands
  have cancels := taken.cancels_for stands
  have requests : (TickRecord.ofTick kind scene.actor after).requestsFor atom =
      ((scene.cancelRequests course.canceled).filter
        (fun request => decide (request.atom = atom))).reverse.map
          (.ofRequest scene.actor.id .cancel) ++
      (course.launches.filter (fun request => decide (request.atom = atom))).map
        (.ofRequest scene.actor.id .launch) := by
    simp only [TickRecord.requestsFor, TickRecord.ofTick, Machine.takeRequests,
      RequestQueue.forActor, taken.performs.cancels, taken.performs.launches, List.filter_append,
      List.filter_map, ← List.filter_reverse]
    rfl
  rw [requests]
  cases known : scene.actor.outstanding.find? atom with
  | none =>
    cases left : after.actor.outstanding.find? atom with
    | none => simp [launches, cancels, TickRecord.due, TickRecord.ofTick,
        Scene.wasActive, Scene.remembered, known, left]
    | some status => simp [launches, cancels, TickRecord.due, TickRecord.ofTick,
        Scene.wasActive, Scene.remembered, known, left, ActorRequest.ofRequest]
  | some earlier =>
    cases left : after.actor.outstanding.find? atom with
    | none =>
      by_cases active : earlier.isActive = true
      · simp [launches, cancels, TickRecord.due, TickRecord.ofTick,
          Scene.wasActive, Scene.remembered, known, left, active, ActorRequest.ofRequest]
      · simp [launches, cancels, TickRecord.due, TickRecord.ofTick,
          Scene.wasActive, Scene.remembered, known, left, active]
    | some status => simp [launches, cancels, TickRecord.due, TickRecord.ofTick,
        Scene.wasActive, Scene.remembered, known, left]

/-- Only deferred actions are requested. -/
theorem isDeferred_of_request (taken : Taken scene before course after) (kind : TickKind) :
    ∀ request ∈ (TickRecord.ofTick kind scene.actor after).requests,
      (scene.shape.atom? request.atom).any Atom.isDeferred = true := by
  intro request member
  simp only [TickRecord.ofTick, Machine.takeRequests, RequestQueue.forActor,
    taken.performs.cancels, taken.performs.launches, List.mem_append, List.mem_map,
    List.mem_reverse] at member
  rcases member with ⟨cancel, requested, rfl⟩ | ⟨launch, requested, rfl⟩
  · have present := List.mem_map_of_mem (f := Request.atom) requested
    rw [Scene.atoms_cancelRequests] at present
    exact (List.mem_filter.mp present).2
  · have stands := (taken.sound.launches launch requested).2.1
    simp only [ActorRequest.ofRequest, stands]
    rfl

end Taken

/-- What the outside sees happen to a deferred action: requests for it, and the end that it reported
and that a tick has taken note of. -/
inductive Signal where
  | launched
  | canceled
  | completed
  deriving DecidableEq, Repr

/-- What a tick shows of a deferred action. -/
def TickRecord.signals (record : TickRecord) (atom : Nat) : List Signal :=
  (record.requestsFor atom).map (fun request =>
    match request.kind with
    | .launch => .launched
    | .cancel => .canceled) ++
  if (record.before.outstanding.find? atom).any Status.isTerminal then [.completed] else []

/-- Signals alternate between launches and ends, and tell whether the action is outstanding. -/
inductive Alternates : List Signal → Bool → Prop
  | idle : Alternates [] false
  | launch {signals : List Signal} (before : Alternates signals false) :
      Alternates (signals ++ [.launched]) true
  | cancel {signals : List Signal} (before : Alternates signals true) :
      Alternates (signals ++ [.canceled]) false
  | complete {signals : List Signal} (before : Alternates signals true) :
      Alternates (signals ++ [.completed]) false

/-- The signals of a tick go on with the alternation. -/
theorem Alternates.tick {scene : Scene β} {before after : Tick β} {course : Course β}
    {atom action resource : Nat} {signals : List Signal} (taken : Taken scene before course after)
    (kind : TickKind) (stands : scene.shape.atom? atom = some (.deferred action resource))
    (alternates : Alternates signals (scene.actor.outstanding.find? atom).isSome) :
    Alternates (signals ++ (TickRecord.ofTick kind scene.actor after).signals atom)
      (after.actor.outstanding.find? atom).isSome := by
  have left (status : Status) (found : after.actor.outstanding.find? atom = some status) :
      status = .launch ∧ scene.actor.outstanding.find? atom = none ∨
        status = .running ∧ (scene.actor.outstanding.find? atom).any Status.isActive = true :=
    taken.status_eq stands found
  rw [TickRecord.signals, taken.requestsFor_eq kind stands]
  cases known : scene.actor.outstanding.find? atom with
  | none =>
    rw [known] at alternates
    cases found : after.actor.outstanding.find? atom with
    | none => simpa [TickRecord.due, TickRecord.ofTick, known, found] using alternates
    | some status => simpa [TickRecord.due, TickRecord.ofTick, known, found] using alternates.launch
  | some earlier =>
    rw [known] at alternates left
    by_cases active : earlier.isActive = true
    · cases found : after.actor.outstanding.find? atom with
      | none =>
        simpa [TickRecord.due, TickRecord.ofTick, known, found, active, Status.isTerminal]
          using alternates.cancel
      | some status =>
        simpa [TickRecord.due, TickRecord.ofTick, known, found, active, Status.isTerminal]
          using alternates
    · cases found : after.actor.outstanding.find? atom with
      | none =>
        simpa [TickRecord.due, TickRecord.ofTick, known, found, active, Status.isTerminal]
          using alternates.complete
      | some status =>
        rcases left status found with ⟨-, unknown⟩ | ⟨-, running⟩
        · cases unknown
        · exact absurd running (by simpa using active)

/-- A tick requests deferred actions only, and each of them exactly as it is due; what is
outstanding afterwards was launched in this tick or goes on running. -/
def TickRecord.Dutiful (shape : Shape β) (record : TickRecord) : Prop :=
  (∀ request ∈ record.requests, (shape.atom? request.atom).any Atom.isDeferred = true) ∧
  ∀ atom action resource, shape.atom? atom = some (.deferred action resource) →
    record.requestsFor atom = record.due atom action resource ∧
    ∀ status, record.after.outstanding.find? atom = some status →
      status = if record.before.outstanding.find? atom = none then .launch else .running

theorem Taken.dutiful {scene : Scene β} {before after : Tick β} {course : Course β}
    (taken : Taken scene before course after) (kind : TickKind) :
    (TickRecord.ofTick kind scene.actor after).Dutiful scene.shape := by
  refine ⟨taken.isDeferred_of_request kind, fun atom action resource stands =>
    ⟨taken.requestsFor_eq kind stands, fun status left => ?_⟩⟩
  rcases taken.status_eq stands left with ⟨rfl, unknown⟩ | ⟨rfl, active⟩
  · exact (if_pos unknown).symm
  · refine (if_neg fun unknown => ?_).symm
    have unknown : scene.remembered atom = none := unknown
    simp [Scene.wasActive, unknown] at active

namespace Run
variable {shape : Shape β} {history : List TickRecord} {actor : Actor}

/-- Along a run every tick is dutiful. -/
theorem dutiful (run : Run shape history actor) : ∀ record ∈ history, record.Dutiful shape := by
  refine run.induction (motive := fun history _ => ∀ record ∈ history, record.Dutiful shape)
    ?_ ?_ ?_
  · intro id seed handle record member
    cases member
  · intro history actor machine board time monitored kind course after run taken earlier
      record member
    rcases List.mem_append.mp member with before | now
    · exact earlier record before
    · obtain rfl := List.mem_singleton.mp now
      exact taken.dutiful kind
  · intro history actor after reports earlier
    exact earlier

/-- Along a run the signals of a deferred action alternate. -/
theorem alternates (run : Run shape history actor) {atom action resource : Nat}
    (stands : shape.atom? atom = some (.deferred action resource)) :
    Alternates (history.flatMap fun record => record.signals atom)
      (actor.outstanding.find? atom).isSome := by
  refine run.induction (motive := fun history actor =>
    Alternates (history.flatMap fun record => record.signals atom)
      (actor.outstanding.find? atom).isSome) ?_ ?_ ?_
  · intro id seed handle
    exact .idle
  · intro history actor machine board time monitored kind course after run taken earlier
    rw [List.flatMap_append, List.flatMap_singleton]
    exact earlier.tick taken kind stands
  · intro history actor after reports earlier
    rcases reports atom with same | ⟨-, known, reported⟩
    · rwa [same]
    · rwa [reported, ← known]

/-- No further tick of a run fails. -/
theorem tick_ok (run : Run shape history actor) {machine : Machine} (sized : machine.Sized)
    (covers : machine.supports shape.needs = true) (board : β) (time : Time) (monitored : Bool) :
    (∃ result after, (Tick.start machine actor board).update ⟨shape, time, monitored⟩ =
      .ok ⟨.ok result, after⟩) ∧
    ∃ after, (Tick.start machine actor board).cancel ⟨shape, time, monitored⟩ =
      .ok ⟨.ok .cancel, after⟩ := by
  obtain ⟨result, updated, updates, -⟩ := (Tick.start machine actor board).update_taken
    ⟨shape, time, monitored⟩ run.steady sized covers
  obtain ⟨canceled, cancels, -⟩ := (Tick.start machine actor board).cancel_taken
    ⟨shape, time, monitored⟩ run.steady sized covers
  exact ⟨⟨result, updated, updates⟩, canceled, cancels⟩

/-- The protocol of deferred actions: along a run no tick fails and every tick is dutiful, so the
signals of each deferred action alternate, and it is outstanding exactly after a launch. -/
theorem deferred_protocol (run : Run shape history actor) :
    (∀ record ∈ history, record.Dutiful shape) ∧
    (∀ atom action resource, shape.atom? atom = some (.deferred action resource) →
      Alternates (history.flatMap fun record => record.signals atom)
        (actor.outstanding.find? atom).isSome) ∧
    ∀ machine : Machine, machine.Sized → machine.supports shape.needs = true →
      ∀ board time monitored,
        (∃ result after, (Tick.start machine actor board).update ⟨shape, time, monitored⟩ =
          .ok ⟨.ok result, after⟩) ∧
        ∃ after, (Tick.start machine actor board).cancel ⟨shape, time, monitored⟩ =
          .ok ⟨.ok .cancel, after⟩ :=
  ⟨run.dutiful, fun _ _ _ stands => run.alternates stands,
    fun _ sized covers board time monitored => run.tick_ok sized covers board time monitored⟩

end Run

/-- The first update of the newcomer launches its deferred action. -/
theorem Run.deferred_protocol_sample : ∃ history actor, Run Sample.shape history actor ∧
    Alternates (history.flatMap fun record => record.signals 2) true ∧
    ∀ record ∈ history, record.requestsFor 2 = [⟨5, 7, 3, 2, .launch⟩] := by
  obtain ⟨result, after, next, -, taken⟩ := Sample.update_newcomer
  have unknown : Sample.newcomer.outstanding.find? 2 = none := rfl
  have launched : after.actor.outstanding.find? 2 = some .launch := by
    apply (taken.performs.outstanding_find? taken.sound 2 .launch).mpr
    decide +kernel
  obtain ⟨dutiful, alternates, -⟩ := deferred_protocol next
  refine ⟨_, _, next, ?_, fun record member => ?_⟩
  · have outstanding := alternates 2 7 3 rfl
    rwa [launched] at outstanding
  · obtain rfl := List.mem_singleton.mp member
    have due := ((dutiful _ member).2 2 7 3 rfl).1
    rw [due]
    simp only [TickRecord.due, TickRecord.ofTick, launched, unknown]
    rfl

end BehaviorTree
