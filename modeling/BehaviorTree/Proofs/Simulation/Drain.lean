import BehaviorTree.Proofs.Simulation.Mirror

namespace BehaviorTree
open Machine Ordered
variable {β : Type}

/-- What ascends falls apart at the start of a span. Where nothing lies behind the span, the rest
lies in it. -/
theorem Span.exists_kept {ν : Type} {contents : Array (Entry ν)} (span : Span)
    (ascending : Ascending contents.toList)
    (reached : ∀ entry ∈ contents.toList, span.start ≤ entry.atom → entry.atom < span.stop) :
    ∃ kept ≤ contents.size,
      partitionPoint contents (fun entry => decide (entry.atom < span.start)) = kept ∧
      contents.toList.take kept =
        contents.toList.filter (fun entry => decide (entry.atom < span.start)) ∧
      (contents.drop kept).toList =
        contents.toList.filter (fun entry => decide (span.start ≤ entry.atom)) ∧
      (contents.drop kept).all (fun entry => span.contains entry.atom) = true := by
  have splits : Splits contents span.start
      (partitionPoint contents fun entry => decide (entry.atom < span.start)) :=
    .partitionPoint ascending span.start
  have dropped := splits.toList_drop
  rw [← toList_arrayDrop] at dropped
  refine ⟨_, splits.within, rfl, splits.toList_take, dropped, ?_⟩
  rw [← Array.all_toList, dropped, List.all_eq_true]
  intro entry member
  obtain ⟨held, ahead⟩ := List.mem_filter.mp member
  have ahead : span.start ≤ entry.atom := of_decide_eq_true ahead
  exact (Span.contains_iff _ _).mpr ⟨ahead, reached entry held ahead⟩

namespace Candidate

/-- Where the second list only holds larger atoms, it comes first as a whole. -/
theorem merge_of_larger (shape : Shape β) {fresh carried : List (Entry Status)}
    (larger : ∀ first ∈ fresh, ∀ second ∈ carried, first.atom < second.atom) :
    merge shape fresh carried =
      (carried.map ofActor).reverse ++ (fresh.map (ofTick shape)).reverse := by
  have apart : ∀ first ∈ (fresh.map (ofTick shape)).reverse,
      ∀ second ∈ (carried.map ofActor).reverse, ¬second.atom < first.atom := by
    intro first left second right
    obtain ⟨entry, member, rfl⟩ := List.mem_map.mp (List.mem_reverse.mp left)
    obtain ⟨other, present, rfl⟩ := List.mem_map.mp (List.mem_reverse.mp right)
    exact Nat.not_lt_of_lt (larger entry member other present)
  unfold merge
  generalize (fresh.map (ofTick shape)).reverse = left at apart
  generalize (carried.map ofActor).reverse = right at apart
  induction right with
  | nil => simp
  | cons second rest ih =>
    cases left with
    | nil => simp
    | cons first tail =>
      have not_below : ¬second.atom < first.atom :=
        apart first List.mem_cons_self second List.mem_cons_self
      rw [List.cons_merge_cons_neg _ _ _ (by simpa using not_below), ih fun other member another
        present => apart other member another (List.mem_cons_of_mem _ present), List.cons_append]

theorem cancels_ofTick (scene : Scene β) (entry : Entry Status) :
    (ofTick scene.shape entry).cancels = scene.owes entry := by
  obtain ⟨atom, value⟩ := entry
  cases value <;> simp [ofTick, Scene.owes, Status.isActive]

end Candidate

namespace Course

/-- What is outstanding has no part in a cancellation. -/
theorem cancelAll_outstanding (scene : Scene β) (course : Course β)
    (outstanding : List (Entry Status))
    (atoms : List Nat) : { course with outstanding }.cancelAll scene atoms =
      { course.cancelAll scene atoms with outstanding } := by
  induction atoms generalizing course with
  | nil => rfl
  | cons atom rest ih =>
    have first : { course with outstanding }.cancel scene atom =
        { course.cancel scene atom with outstanding } := by
      unfold cancel
      cases scene.shape.atom? atom with
      | none => rfl
      | some node => cases node <;> rfl
    change ({ course with outstanding }.cancel scene atom).cancelAll scene rest = _
    rw [first, ih]
    rfl

end Course

variable {scene : Scene β} {capacities : Capacities} {earlier : List Call} {position : Nat}
  {tick : Tick β} {course : Course β}

/-- The merge of what lies in the span names what the course cancels, in the same order. -/
theorem Candidate.canceled_merge
    (dealt : ∀ entry ∈ course.outstanding, entry.atom < course.frontier) :
    canceled (merge scene.shape
        (course.outstanding.filter fun entry => decide (course.pending.start ≤ key entry))
        (scene.actor.outstanding.entries.toList.filter fun entry =>
          decide (key entry < course.pending.stop) &&
            decide (max course.frontier course.pending.start ≤ key entry))) =
      course.toCancel scene := by
  have larger : ∀ second ∈ course.outstanding.filter
        (fun entry => decide (course.pending.start ≤ key entry)),
      ∀ entry ∈ scene.actor.outstanding.entries.toList.filter (fun entry =>
        decide (key entry < course.pending.stop) &&
          decide (max course.frontier course.pending.start ≤ key entry)),
      second.atom < entry.atom := by
    intro second left entry right
    have below := dealt second (List.mem_filter.mp left).1
    have ahead := (List.mem_filter.mp right).2
    simp only [Bool.and_eq_true, decide_eq_true_eq, key_entry] at ahead
    omega
  rw [merge_of_larger scene.shape larger, canceled, List.filter_append, List.map_append,
    List.filter_reverse, List.filter_reverse, List.filter_map, List.filter_map, List.map_reverse,
    List.map_reverse, List.map_map, List.map_map, List.filter_filter, List.filter_filter,
    Course.toCancel]
  congr 2
  · refine congrArg (List.map Entry.atom) (List.filter_congr fun entry _ => ?_)
    rw [Bool.eq_iff_iff]
    simp only [Function.comp_apply, ofActor, key_entry, Bool.and_eq_true, decide_eq_true_eq,
      Span.contains_iff, Nat.max_le]
    constructor
    · rintro ⟨active, below, ahead, reached⟩
      exact ⟨⟨⟨reached, below⟩, ahead⟩, active⟩
    · rintro ⟨⟨⟨reached, below⟩, ahead⟩, active⟩
      exact ⟨active, below, ahead, reached⟩
  · refine congrArg (List.map Entry.atom) (List.filter_congr fun entry _ => ?_)
    rw [Function.comp_apply, cancels_ofTick, key_entry, Bool.and_comm]

/-- A cancellation leaves the traversal where it stands, and does what the course does. -/
def Cancels (scene : Scene β) (capacities : Capacities) (earlier : List Call) (position : Nat)
    (atom : Nat) (tick : Tick β) (course : Course β) (cancel : Checked (Tick β)) : Prop :=
  ∃ after, cancel = .ok after ∧ SameControl tick.machine after.machine ∧
    Mirror scene capacities earlier position after (course.cancel scene atom)

namespace Mirror

section
variable (mirror : Mirror scene capacities earlier position tick course) {atom : Nat}
include mirror

theorem cancelImmediate {function : Nat}
    (stands : scene.shape.atom? atom = some (.immediate function)) :
    Cancels scene capacities earlier position atom tick course
      (tick.cancelAtom scene.toSetting atom (.immediate function)) := by
  obtain ⟨action, known⟩ := Option.isSome_iff_exists.mp (scene.shape.function?_isSome stands)
  have marked : Mirror scene capacities earlier position tick
      { course with canceled := course.canceled ++ [atom] } :=
    { mirror with
      cancels := by
        rw [mirror.cancels, Scene.cancelRequests_append]
        simp [Scene.cancelRequests, stands]
      changes := by
        rw [mirror.changes, Scene.slotChanges_append]
        simp [Scene.slotChanges, stands, Atom.isPersistent] }
  obtain ⟨returned, called, left, calls, call_eq, called_control, called_mirror⟩ :=
    marked.call atom known .cancel
  unfold Cancels
  simp only [Tick.cancelAtom, known, Tick.callCancel, calls, Course.cancel, stands, call_eq]
  by_cases answered : returned = .cancel
  · exact ⟨called, by rw [if_pos answered], called_control, called_mirror⟩
  · exact ⟨called.log _, by rw [if_neg answered], called_control, called_mirror.log _⟩

theorem cancelDeferred {action resource : Nat}
    (stands : scene.shape.atom? atom = some (.deferred action resource))
    (room : course.launches.length +
      (scene.cancelRequests (course.canceled ++ [atom])).length ≤ capacities.requests) :
    Cancels scene capacities earlier position atom tick course
      (tick.cancelAtom scene.toSetting atom (.deferred action resource)) := by
  have request : scene.cancelRequests [atom] = [⟨action, resource, atom⟩] := by
    simp [Scene.cancelRequests, stands]
  rw [Scene.cancelRequests_append, request, List.length_append, List.length_singleton] at room
  have free : tick.machine.requests.count < tick.machine.requests.capacity := by
    rw [mirror.sized.requests, mirror.capacities, ← RequestQueue.length_lists,
      mirror.launches, mirror.cancels, List.length_reverse]
    omega
  obtain ⟨requests, pushed, launches, cancels, capacity⟩ :=
    RequestQueue.pushCancel_room free ⟨action, resource, atom⟩
  refine ⟨{ tick with machine.requests := requests }.log (.cancelRequested atom action), ?_,
    .refl _, ?_⟩
  · simp only [Tick.cancelAtom, Tick.requestCancel, pushed, bind, Except.bind, pure, Except.pure]
  · simp only [Course.cancel, stands]
    apply Mirror.log
    refine { mirror with launches := ?_, cancels := ?_, changes := ?_, sized := ?_ }
    · rw [launches, mirror.launches]
    · rw [cancels, mirror.cancels, Scene.cancelRequests_append, request, List.reverse_append]
      rfl
    · rw [mirror.changes, Scene.slotChanges_append]
      simp [Scene.slotChanges, stands, Atom.isPersistent]
    · exact ⟨mirror.sized.frames, mirror.sized.continuations, mirror.sized.outstanding,
        mirror.sized.changes, capacity.trans mirror.sized.requests⟩

theorem cancelPersistent {slot : Nat}
    (stands : scene.shape.atom? atom = some (.persistent slot))
    (room : (scene.slotChanges (course.canceled ++ [atom])).length ≤ capacities.slotChanges) :
    Cancels scene capacities earlier position atom tick course
      (tick.cancelAtom scene.toSetting atom (.persistent slot)) := by
  have change : scene.slotChanges [atom] = [⟨atom, .cancel⟩] := by
    simp [Scene.slotChanges, stands, Atom.isPersistent]
  rw [Scene.slotChanges_append, change, List.length_append, List.length_singleton] at room
  have free : tick.machine.changes.count < tick.machine.changes.capacity := by
    rw [mirror.sized.changes, mirror.capacities, ← Buffer.length_contents, mirror.changes]
    exact room
  obtain ⟨changes, pushed, contents, capacity⟩ := Buffer.push_room free ⟨atom, .cancel⟩
  refine ⟨{ tick with machine.changes := changes }, ?_, .refl _, ?_⟩
  · simp only [Tick.cancelAtom, pushed, bind, Except.bind, pure, Except.pure]
  · simp only [Course.cancel, stands]
    refine { mirror with cancels := ?_, changes := ?_, sized := ?_ }
    · rw [mirror.cancels, Scene.cancelRequests_append]
      simp [Scene.cancelRequests, stands]
    · rw [contents, mirror.changes, Scene.slotChanges_append, change]
    · exact ⟨mirror.sized.frames, mirror.sized.continuations, mirror.sized.outstanding,
        capacity.trans mirror.sized.changes, mirror.sized.requests⟩

/-- The cancellation of an action mirrors that of the course, where there is room for its request or
its change. -/
theorem cancelAt (action : (scene.shape.atom? atom).any Atom.isAction = true)
    (requests_room : course.launches.length +
      (scene.cancelRequests (course.canceled ++ [atom])).length ≤ capacities.requests)
    (changes_room : (scene.slotChanges (course.canceled ++ [atom])).length ≤
      capacities.slotChanges) :
    Cancels scene capacities earlier position atom tick course
      (tick.cancelAt scene.toSetting atom) := by
  obtain ⟨node, stands, is_action⟩ := (Option.any_eq_true _ _).mp action
  let noticed := tick.notify scene.toSetting atom (.cancel ||| .enter)
  have machine_eq : noticed.machine = tick.machine := Tick.machine_notify _ _ _ _
  have noticed_mirror : Mirror scene capacities earlier position noticed course :=
    mirror.notify _ _ _
  have control : SameControl tick.machine noticed.machine := machine_eq ▸ .refl _
  have cancels : Cancels scene capacities earlier position atom noticed course
      (noticed.cancelAtom scene.toSetting atom node) := by
    cases node with
    | immediate function => exact noticed_mirror.cancelImmediate stands
    | deferred action resource => exact noticed_mirror.cancelDeferred stands requests_room
    | persistent slot => exact noticed_mirror.cancelPersistent stands changes_room
    | decider rule stop => cases is_action
  obtain ⟨after, canceled, after_control, after_mirror⟩ := cancels
  refine ⟨after.notify scene.toSetting atom (.cancel ||| .leave), ?_, ?_, after_mirror.notify _ _ _⟩
  · simp only [Tick.cancelAt, stands, noticed, canceled, bind, Except.bind, pure, Except.pure]
  · rw [Tick.machine_notify]
    exact control.trans after_control

end

/-- The cancellation of many actions finds room for each if there is room for all. -/
theorem cancelAll (mirror : Mirror scene capacities earlier position tick course)
    (atoms : List Nat)
    (actions : ∀ atom ∈ atoms, (scene.shape.atom? atom).any Atom.isAction = true)
    (requests_room : course.launches.length +
      (scene.cancelRequests (course.canceled ++ atoms)).length ≤ capacities.requests)
    (changes_room : (scene.slotChanges (course.canceled ++ atoms)).length ≤
      capacities.slotChanges) :
    ∃ after, Tick.cancelAll scene.toSetting atoms tick = .ok after ∧
      SameControl tick.machine after.machine ∧
      Mirror scene capacities earlier position after (course.cancelAll scene atoms) := by
  induction atoms generalizing tick course with
  | nil => exact ⟨tick, rfl, .refl _, mirror⟩
  | cons atom rest ih =>
    rw [← List.singleton_append, ← List.append_assoc] at requests_room changes_room
    obtain ⟨middle, canceled, control, middle_mirror⟩ :=
      mirror.cancelAt (actions atom List.mem_cons_self)
        (by rw [Scene.cancelRequests_append, List.length_append] at requests_room; omega)
        (by rw [Scene.slotChanges_append, List.length_append] at changes_room; omega)
    obtain ⟨board, seed, calls, canceled_eq⟩ := course.cancel_eq scene atom
    obtain ⟨after, all, all_control, after_mirror⟩ := ih middle_mirror
      (fun other member => actions other (List.mem_cons_of_mem _ member))
      (by rw [canceled_eq]; exact requests_room) (by rw [canceled_eq]; exact changes_room)
    refine ⟨after, ?_, control.trans all_control, after_mirror⟩
    simp only [Tick.cancelAll, canceled, bind, Except.bind]
    exact all

/-- What this tick left outstanding falls apart at the start of the span, and nothing of it lies
behind the span. -/
theorem outstanding_split (mirror : Mirror scene capacities earlier position tick course)
    (sound : Sound scene position course) (nonempty : course.pending.isEmpty = false) :
    ∃ kept ≤ tick.machine.outstanding.contents.size,
      partitionPoint tick.machine.outstanding.contents (fun entry =>
        decide (entry.atom < course.pending.start)) = kept ∧
      course.outstanding.take kept = course.outstanding.filter (fun entry =>
        decide (entry.atom < course.pending.start)) ∧
      (tick.machine.outstanding.contents.drop kept).toList = course.outstanding.filter (fun entry =>
        decide (course.pending.start ≤ entry.atom)) ∧
      (tick.machine.outstanding.contents.drop kept).all (fun entry =>
        course.pending.contains entry.atom) = true := by
  have fresh_eq := mirror.outstanding
  obtain ⟨kept, kept_le, kept_eq, taken, dropped, covered⟩ :=
    Span.exists_kept course.pending (fresh_eq ▸ sound.ascending) fun entry held _ => by
      rw [fresh_eq] at held
      have below := (sound.outstanding entry held).1
      have stop := (sound.pending_stop nonempty).1
      omega
  rw [fresh_eq] at taken dropped
  exact ⟨kept, kept_le, kept_eq, taken, dropped, covered⟩

/-- A drain cancels what the course cancels, and then forgets what this tick left in the span. -/
theorem drain_eq (mirror : Mirror scene capacities earlier position tick course)
    (ready : scene.Ready) (sound : Sound scene position course)
    (busy : course.pending.isEmpty = false) :
    ∃ cursor kept, kept ≤ course.outstanding.length ∧
      course.outstanding.take kept = course.outstanding.filter (fun entry =>
        decide (entry.atom < course.pending.start)) ∧
      Splits scene.actor.outstanding.entries (max course.frontier course.pending.stop) cursor ∧
      tick.drain scene.toSetting = do
        let canceled ← Tick.cancelAll scene.toSetting (course.toCancel scene)
          { tick with machine.pending := .empty, machine.outstandingCursor := cursor }
        let outstanding ← canceled.machine.outstanding.truncate kept
        return { canceled with machine.outstanding := outstanding }.log
          (.spanDrained course.pending.start course.pending.stop
            (course.toCancel scene).length) := by
  have entries : tick.actor.outstanding.entries = scene.actor.outstanding.entries := by
    rw [mirror.actor]
  have nonempty : course.pending.start < course.pending.stop :=
    (Span.isEmpty_eq_false_iff _).mp busy
  obtain ⟨kept, kept_le, kept_eq, taken, dropped, covered⟩ := mirror.outstanding_split sound busy
  -- What the actor had outstanding in the span begins where the cursor gets to.
  obtain ⟨first, passed, advanced, first_le, point, window, splits⟩ :=
    mirror.outstandingCursor.window ready.outstanding course.pending.start course.pending.stop
  have canceled : Candidate.canceled (Candidate.merge scene.shape
      (tick.machine.outstanding.contents.drop kept).toList
      ((scene.actor.outstanding.entries.drop first).take passed).toList) =
        course.toCancel scene := by
    rw [dropped, window]
    exact Candidate.canceled_merge fun entry member => (sound.outstanding entry member).1
  have frontier : max (max course.frontier course.pending.start) course.pending.stop =
      max course.frontier course.pending.stop := by omega
  rw [frontier] at splits
  refine ⟨first + passed, kept, ?_, taken, splits, ?_⟩
  · rw [← mirror.outstanding, Array.length_toList]
    exact kept_le
  · simp only [Tick.drain, mirror.pending, busy, Bool.false_eq_true, if_false, bind, Except.bind,
      pure, Except.pure, require, entries, advanced, first_le, decide_true, if_true]
    simp only [kept_eq, covered, if_true]
    simp only [key_entry] at point
    simp only [point, canceled]

/-- A drain mirrors the drain of the course. -/
theorem drain (mirror : Mirror scene capacities earlier position tick course)
    (ready : scene.Ready) (covers : capacities.covers scene.shape.needs = true)
    (sound : Sound scene position course) :
    ∃ after, tick.drain scene.toSetting = .ok after ∧ SameControl tick.machine after.machine ∧
      Mirror scene capacities earlier position after (course.drain scene) := by
  by_cases empty : course.pending.isEmpty = true
  · refine ⟨tick, ?_, .refl _, ?_⟩
    · simp only [Tick.drain, mirror.pending, empty, if_true]
      rfl
    · rw [Course.drain_of_isEmpty scene empty]
      exact mirror
  rw [Bool.not_eq_true] at empty
  obtain ⟨cursor, kept, kept_le, taken, splits, drain_eq⟩ := mirror.drain_eq ready sound empty
  let passing : Tick β := { tick with machine := { tick.machine with
    pending := .empty, outstandingCursor := cursor } }
  have passing_mirror : Mirror scene capacities earlier position passing
      { course with pending := .empty, frontier := max course.frontier course.pending.stop } :=
    { mirror with pending := rfl, outstandingCursor := splits }
  -- The drained course is sound, so all requests and changes find room.
  have sound_after := sound.drain ready
  obtain ⟨board, seed, calls, drained⟩ := Course.drain_eq scene empty
  have requests_room := Nat.le_trans sound_after.requests_le
    ((Capacities.covers_iff _ _).mp covers .requests)
  have changes_room := Nat.le_trans sound_after.slotChanges_le
    ((Capacities.covers_iff _ _).mp covers .slotChanges)
  rw [drained] at requests_room changes_room
  obtain ⟨middle, all, control, middle_mirror⟩ := passing_mirror.cancelAll (course.toCancel scene)
    (fun atom member => sound.isAction_of_toCancel ready empty member) requests_room changes_room
  -- What this tick left in the span is forgotten.
  have held : middle.machine.outstanding.contents.toList = course.outstanding := by
    obtain ⟨_, _, _, canceled_eq⟩ := Course.cancelAll_eq scene { course with
      pending := .empty, frontier := max course.frontier course.pending.stop }
      (course.toCancel scene)
    rw [middle_mirror.outstanding, canceled_eq]
  rw [← held] at kept_le
  obtain ⟨outstanding, truncated, contents, capacity⟩ := Buffer.truncate_shrink kept_le
  rw [held, taken] at contents
  refine ⟨{ middle with machine.outstanding := outstanding }.log
    (.spanDrained course.pending.start course.pending.stop (course.toCancel scene).length), ?_,
    ?_, Mirror.log ?_ _⟩
  · simp only [passing] at all
    simp only [drain_eq, all, truncated, bind, Except.bind, pure, Except.pure]
  · exact control
  · rw [Course.drain, if_neg (by rw [empty]; simp)]
    have forgotten := Course.cancelAll_outstanding scene { course with
      pending := .empty, frontier := max course.frontier course.pending.stop }
      (course.outstanding.filter fun entry => decide (entry.atom < course.pending.start))
      (course.toCancel scene)
    rw [forgotten]
    exact { middle_mirror with
      outstanding := contents
      sized := ⟨middle_mirror.sized.frames, middle_mirror.sized.continuations,
        capacity.trans middle_mirror.sized.outstanding, middle_mirror.sized.changes,
        middle_mirror.sized.requests⟩ }

end Mirror

end BehaviorTree
