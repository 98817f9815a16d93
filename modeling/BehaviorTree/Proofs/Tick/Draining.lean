import BehaviorTree.Proofs.Tick.Cancellation
import BehaviorTree.Proofs.Simulation.Notices

namespace BehaviorTree
open Ordered
variable {β : Type}

/-- The blackboard and the seed after an atom was canceled: only a function can change them. -/
def Setting.afterCancel (setting : Setting β) (state : β × Seed) (atom : Nat) : β × Seed :=
  match setting.shape.atom? atom with
  | some (.immediate function) =>
      match setting.shape.function? function with
      | some action =>
          let reply := action state.1 state.2 setting.time .cancel
          (reply.board, reply.seed)
      | none => state
  | some (.deferred _ _) | some (.persistent _) | some (.decider _ _) | none => state

namespace Candidate
variable {scene : Scene β} {fresh carried : List (Entry Status)}

/-- The merge of two falling lists without a common atom falls. -/
theorem falls_merge {left right : List Candidate}
    (left_falls : left.Pairwise fun first second => second.atom < first.atom)
    (right_falls : right.Pairwise fun first second => second.atom < first.atom)
    (apart : ∀ first ∈ left, ∀ second ∈ right, first.atom ≠ second.atom) :
    (List.merge left right fun first second => decide (second.atom < first.atom)).Pairwise
      fun first second => second.atom < first.atom := by
  induction left generalizing right with
  | nil => simpa using right_falls
  | cons first left ih =>
    obtain ⟨first_above, left_falls⟩ := List.pairwise_cons.mp left_falls
    induction right with
    | nil => simpa using ⟨first_above, left_falls⟩
    | cons second right ih_right =>
      obtain ⟨second_above, rest_falls⟩ := List.pairwise_cons.mp right_falls
      rw [List.cons_merge_cons]
      split
      · next below =>
        have below : second.atom < first.atom := of_decide_eq_true below
        refine List.pairwise_cons.mpr ⟨fun other member => ?_, ih left_falls right_falls
          fun one present => apart one (List.mem_cons_of_mem _ present)⟩
        rcases List.mem_merge.mp member with present | present
        · exact first_above other present
        · rcases List.mem_cons.mp present with rfl | present
          · exact below
          · exact Nat.lt_trans (second_above other present) below
      · next above =>
        have differs := apart first List.mem_cons_self second List.mem_cons_self
        have above : first.atom < second.atom := by
          have : ¬second.atom < first.atom := fun below => above (decide_eq_true below)
          omega
        refine List.pairwise_cons.mpr ⟨fun other member => ?_, ih_right rest_falls
          fun one present another member => apart one present another
            (List.mem_cons_of_mem _ member)⟩
        rcases List.mem_merge.mp member with present | present
        · rcases List.mem_cons.mp present with rfl | present
          · exact above
          · exact Nat.lt_trans (first_above other present) above
        · exact second_above other present

/-- Of two ascending sources without a common atom, what needs a cancel is named in falling
order. -/
theorem falls_canceled (shape : Shape β) (fresh_ascending : Ascending fresh)
    (carried_ascending : Ascending carried)
    (apart : ∀ first ∈ fresh, ∀ second ∈ carried, first.atom ≠ second.atom) :
    (canceled (merge shape fresh carried)).Pairwise (· > ·) := by
  have left_falls : ((fresh.map (ofTick shape)).reverse).Pairwise
      fun first second => second.atom < first.atom :=
    List.pairwise_reverse.mpr (List.pairwise_map.mpr fresh_ascending)
  have right_falls : ((carried.map ofActor).reverse).Pairwise
      fun first second => second.atom < first.atom :=
    List.pairwise_reverse.mpr (List.pairwise_map.mpr carried_ascending)
  refine List.pairwise_map.mpr ((falls_merge left_falls right_falls ?_).filter _)
  intro first left second right
  obtain ⟨entry, member, rfl⟩ := List.mem_map.mp (List.mem_reverse.mp left)
  obtain ⟨other, present, rfl⟩ := List.mem_map.mp (List.mem_reverse.mp right)
  exact apart entry member other present

/-- What needs a cancel is what needs one in either source. -/
theorem canceled_perm (fresh carried : List (Entry Status)) :
    (canceled (merge scene.shape fresh carried)).Perm
      ((fresh.filter scene.owes).map Entry.atom ++
        (carried.filter fun entry => entry.value.isActive).map Entry.atom) := by
  have whole : (merge scene.shape fresh carried).Perm
      (fresh.map (ofTick scene.shape) ++ carried.map ofActor) :=
    (List.merge_perm_append _).trans ((List.reverse_perm _).append (List.reverse_perm _))
  refine ((whole.filter cancels).map atom).trans (.of_eq ?_)
  rw [List.filter_append, List.map_append, List.filter_map, List.filter_map, List.map_map,
    List.map_map]
  have owes : Candidate.cancels ∘ ofTick scene.shape = scene.owes :=
    funext fun entry => cancels_ofTick scene entry
  rw [owes]
  rfl

end Candidate

/-- Every place of an ascending array splits it at some bound. -/
theorem Ordered.exists_splits {α : Type} [Keyed α] {entries : Array α}
    (ascending : Ascending entries.toList) {cursor : Nat} (within : cursor ≤ entries.size) :
    ∃ bound, Splits entries bound cursor := by
  cases cursor with
  | zero => exact ⟨0, .zero entries⟩
  | succ last =>
    refine ⟨key entries[last] + 1, within, fun position inside => ?_⟩
    rcases Nat.lt_trichotomy position last with earlier | rfl | later
    · have := key_lt_of_lt ascending earlier within
      omega
    · omega
    · have := key_lt_of_lt ascending later inside
      omega

namespace Tick
variable {tick middle after : Tick β} {setting : Setting β}

/-- Some atoms have been canceled, one after the other: functions have been told, requests have been
made and changes of slots noted, in that order. -/
structure Canceled (setting : Setting β) (before : Tick β) (atoms : List Nat) (after : Tick β) :
    Prop where
  calls : ∃ calls, after.calls = before.calls ++ calls ∧
    calls.map Call.asked = setting.shape.cancelCalls atoms
  state : (after.board, after.actor.seed) =
    atoms.foldl setting.afterCancel (before.board, before.actor.seed)
  actor : after.actor = { before.actor with seed := after.actor.seed }
  launches : after.machine.requests.launches = before.machine.requests.launches
  cancels : after.machine.requests.cancels.toList =
    ((before.scene setting).cancelRequests atoms).reverse ++
      before.machine.requests.cancels.toList
  changes : after.machine.changes.contents.toList =
    before.machine.changes.contents.toList ++ (before.scene setting).slotChanges atoms
  stores : before.machine.Stores after.machine

/-- Some atoms have been canceled, and of the machine nothing else has changed. -/
structure Cancels (setting : Setting β) (before : Tick β) (atoms : List Nat) (after : Tick β) : Prop
    extends before.Canceled setting atoms after where
  machine : after.machine = { before.machine with
    requests := after.machine.requests
    changes := after.machine.changes }

namespace Cancels

theorem nil (setting : Setting β) (tick : Tick β) : tick.Cancels setting [] tick where
  calls := ⟨[], (List.append_nil _).symm, rfl⟩
  state := rfl
  actor := rfl
  launches := rfl
  cancels := rfl
  changes := (List.append_nil _).symm
  stores := .refl _
  machine := rfl

/-- Cancellations that follow each other are one. -/
theorem append {first second : List Nat} (before : tick.Cancels setting first middle)
    (later : middle.Cancels setting second after) :
    tick.Cancels setting (first ++ second) after := by
  obtain ⟨calls, called, asked⟩ := before.calls
  obtain ⟨more, called_more, asked_more⟩ := later.calls
  have requests (atoms : List Nat) : (middle.scene setting).cancelRequests atoms =
      (tick.scene setting).cancelRequests atoms := rfl
  have changes (atoms : List Nat) : (middle.scene setting).slotChanges atoms =
      (tick.scene setting).slotChanges atoms := rfl
  refine ⟨⟨⟨calls ++ more, ?_, ?_⟩, ?_, ?_, later.launches.trans before.launches, ?_, ?_,
    before.stores.trans later.stores⟩, ?_⟩
  · rw [called_more, called, List.append_assoc]
  · rw [List.map_append, asked, asked_more, Shape.cancelCalls, Shape.cancelCalls,
      Shape.cancelCalls, List.filterMap_append]
  · rw [later.state, before.state, List.foldl_append]
  · rw [later.actor, before.actor]
  · rw [later.cancels, before.cancels, requests, Scene.cancelRequests_append, List.reverse_append,
      List.append_assoc]
  · rw [later.changes, before.changes, changes, Scene.slotChanges_append, List.append_assoc]
  · rw [later.machine, before.machine]

/-- What is only reported, before or after, makes no difference. -/
theorem reported {atoms : List Nat} {other last : Tick β}
    (cancels : tick.Cancels setting atoms after)
    (first : tick.toMoment = other.toMoment) (first_calls : tick.calls = other.calls)
    (final : last.toMoment = after.toMoment) (final_calls : last.calls = after.calls) :
    other.Cancels setting atoms last := by
  obtain ⟨⟨machine, actor, board⟩, trace⟩ := tick
  obtain ⟨⟨machine_after, actor_after, board_after⟩, trace_after⟩ := after
  obtain ⟨_, trace_other⟩ := other
  obtain ⟨_, trace_last⟩ := last
  obtain rfl := first
  obtain rfl := final
  obtain ⟨calls, called, asked⟩ := cancels.calls
  refine { cancels with calls := ⟨calls, ?_, asked⟩ }
  rw [final_calls, called, first_calls]

end Cancels

/-- The kinds of room that the cancellation of some atoms takes. -/
structure RoomToCancel (setting : Setting β) (tick : Tick β) (atoms : List Nat) : Prop where
  requests : tick.machine.requests.count + ((tick.scene setting).cancelRequests atoms).length ≤
    tick.machine.requests.capacity
  changes : tick.machine.changes.count + ((tick.scene setting).slotChanges atoms).length ≤
    tick.machine.changes.capacity

section
variable {atom : Nat}

theorem cancels_callCancel {function : Nat} {action : Action β}
    (stands : setting.shape.atom? atom = some (.immediate function))
    (known : setting.shape.function? function = some action) :
    tick.Cancels setting [atom] (tick.callCancel setting atom function action) := by
  have called : tick.Cancels setting [atom] (tick.call setting atom function action .cancel).2 := by
    let reply := action tick.board tick.actor.seed setting.time .cancel
    refine ⟨⟨⟨[⟨atom, function, .cancel, reply.status⟩], ?_, ?_⟩, ?_, rfl, rfl, ?_, ?_, .refl _⟩,
      rfl⟩
    · exact tick.calls_call setting atom function action .cancel
    · simp [Call.asked, Shape.cancelCalls, stands]
    · simp [Setting.afterCancel, stands, known, call, emit]
    · simp [Scene.cancelRequests, Tick.scene, stands]
      rfl
    · simp [Scene.slotChanges, Tick.scene, stands, Atom.isPersistent]
      rfl
  unfold callCancel
  simp only
  split
  · exact called
  · exact called.reported rfl rfl rfl (calls_emit rfl)

theorem cancels_requestCancel {action resource : Nat}
    (stands : setting.shape.atom? atom = some (.deferred action resource))
    (room : tick.RoomToCancel setting [atom]) :
    ∃ after, tick.requestCancel atom action resource = .ok after ∧
      tick.Cancels setting [atom] after := by
  have request : (tick.scene setting).cancelRequests [atom] = [⟨action, resource, atom⟩] := by
    simp [Scene.cancelRequests, Tick.scene, stands]
  have enough := room.requests
  rw [request, List.length_singleton] at enough
  obtain ⟨requests, pushed, launches, cancels, capacity⟩ :=
    RequestQueue.pushCancel_room enough ⟨action, resource, atom⟩
  refine ⟨{ tick with machine.requests := requests }.log (.cancelRequested atom action), ?_, ?_⟩
  · simp only [requestCancel, pushed, bind, Except.bind, pure, Except.pure]
  · refine ⟨⟨⟨[], ?_, ?_⟩, ?_, rfl, launches, ?_, ?_,
      ⟨rfl, rfl, rfl, rfl, rfl, capacity, rfl⟩⟩, rfl⟩
    · rw [log, calls_emit rfl, List.append_nil]
      rfl
    · simp [Shape.cancelCalls, stands]
    · simp [Setting.afterCancel, stands, log, emit]
    · rw [request]
      exact cancels
    · simp [Scene.slotChanges, Tick.scene, stands, Atom.isPersistent, log, emit]

theorem cancels_persistent {slot : Nat}
    (stands : setting.shape.atom? atom = some (.persistent slot))
    (room : tick.RoomToCancel setting [atom]) :
    ∃ after, tick.cancelAtom setting atom (.persistent slot) = .ok after ∧
      tick.Cancels setting [atom] after := by
  have change : (tick.scene setting).slotChanges [atom] = [⟨atom, .cancel⟩] := by
    simp [Scene.slotChanges, Tick.scene, stands, Atom.isPersistent]
  have enough := room.changes
  rw [change, List.length_singleton] at enough
  obtain ⟨changes, pushed, contents, capacity⟩ := Buffer.push_room enough ⟨atom, .cancel⟩
  refine ⟨{ tick with machine.changes := changes }, ?_, ?_⟩
  · simp only [cancelAtom, pushed, bind, Except.bind, pure, Except.pure]
  · refine ⟨⟨⟨[], (List.append_nil _).symm, ?_⟩, ?_, rfl, rfl, ?_, ?_,
      ⟨rfl, rfl, rfl, rfl, capacity, rfl, rfl⟩⟩, rfl⟩
    · simp [Shape.cancelCalls, stands]
    · simp [Setting.afterCancel, stands]
    · simp [Scene.cancelRequests, Tick.scene, stands]
    · rw [change]
      exact contents

/-- An action of the shape is canceled where there is room. -/
theorem cancels_cancelAt (action : (setting.shape.atom? atom).any Atom.isAction = true)
    (room : tick.RoomToCancel setting [atom]) :
    ∃ after, tick.cancelAt setting atom = .ok after ∧ tick.Cancels setting [atom] after := by
  obtain ⟨node, stands, is_action⟩ := (Option.any_eq_true _ _).mp action
  let noticed := tick.notify setting atom (.cancel ||| .enter)
  have moment : noticed.toMoment = tick.toMoment := tick.toMoment_notify _ _ _
  have same : noticed.calls = tick.calls := tick.calls_notify _ _ _
  have machine : noticed.machine = tick.machine := tick.machine_notify _ _ _
  have room_noticed : noticed.RoomToCancel setting [atom] :=
    ⟨by rw [machine]; exact room.requests, by rw [machine]; exact room.changes⟩
  have done : ∃ after, noticed.cancelAtom setting atom node = .ok after ∧
      noticed.Cancels setting [atom] after := by
    cases node with
    | immediate function =>
      obtain ⟨action, known⟩ := Option.isSome_iff_exists.mp (setting.shape.function?_isSome stands)
      exact ⟨_, by simp only [cancelAtom, known], cancels_callCancel stands known⟩
    | deferred action resource => exact cancels_requestCancel stands room_noticed
    | persistent slot => exact cancels_persistent stands room_noticed
    | decider rule stop => cases is_action
  obtain ⟨after, canceled, cancels⟩ := done
  refine ⟨after.notify setting atom (.cancel ||| .leave), ?_,
    cancels.reported moment same (after.toMoment_notify _ _ _) (after.calls_notify _ _ _)⟩
  simp only [cancelAt, stands, noticed, canceled, bind, Except.bind, pure, Except.pure]

end

/-- Actions of the shape are canceled where there is room for all of them. -/
theorem cancels_cancelAll (atoms : List Nat)
    (actions : ∀ atom ∈ atoms, (setting.shape.atom? atom).any Atom.isAction = true)
    (room : tick.RoomToCancel setting atoms) :
    ∃ after, cancelAll setting atoms tick = .ok after ∧ tick.Cancels setting atoms after := by
  induction atoms generalizing tick with
  | nil => exact ⟨tick, rfl, .nil setting tick⟩
  | cons atom rest ih =>
    have requests : (tick.scene setting).cancelRequests (atom :: rest) =
        (tick.scene setting).cancelRequests [atom] ++ (tick.scene setting).cancelRequests rest :=
      Scene.cancelRequests_append [atom] rest
    have changes : (tick.scene setting).slotChanges (atom :: rest) =
        (tick.scene setting).slotChanges [atom] ++ (tick.scene setting).slotChanges rest :=
      Scene.slotChanges_append [atom] rest
    have requests_room := room.requests
    have changes_room := room.changes
    rw [requests, List.length_append] at requests_room
    rw [changes, List.length_append] at changes_room
    have first_room : tick.RoomToCancel setting [atom] := ⟨by omega, by omega⟩
    obtain ⟨middle, canceled, first⟩ :=
      cancels_cancelAt (actions atom List.mem_cons_self) first_room
    have requested : middle.machine.requests.count =
        tick.machine.requests.count + ((tick.scene setting).cancelRequests [atom]).length := by
      rw [← RequestQueue.length_lists, ← RequestQueue.length_lists, first.launches, first.cancels,
        List.length_append, List.length_reverse]
      omega
    have changed : middle.machine.changes.count =
        tick.machine.changes.count + ((tick.scene setting).slotChanges [atom]).length := by
      rw [← Buffer.length_contents, ← Buffer.length_contents, first.changes, List.length_append]
    have room_left : middle.RoomToCancel setting rest := by
      constructor
      · rw [first.stores.requests, requested]
        exact (Nat.add_assoc _ _ _).trans_le requests_room
      · rw [first.stores.changes, changed]
        exact (Nat.add_assoc _ _ _).trans_le changes_room
    obtain ⟨after, all, later⟩ :=
      ih (fun other member => actions other (List.mem_cons_of_mem _ member)) room_left
    refine ⟨after, ?_, first.append later⟩
    simp only [cancelAll, bind, Except.bind, canceled]
    exact all

/-- The atoms whose cancellation a drain owes: what this tick has left outstanding from the start of
the span on, and what was active in the span before and has not been passed. -/
def due (tick : Tick β) (setting : Setting β) : List Nat :=
  let span := tick.machine.pending
  (tick.machine.outstanding.contents.toList.filter fun entry =>
      decide (span.start ≤ entry.atom) && (tick.scene setting).owes entry).map Entry.atom ++
    ((tick.actor.outstanding.entries.toList.drop tick.machine.outstandingCursor).filter fun entry =>
      span.contains entry.atom && entry.value.isActive).map Entry.atom

/-- What a drain must find: both sources ascend and share no atom from the cursor on, the span lies
in the shape and nothing of this tick lies behind it, deciders have nothing active, and there is
room. -/
structure Drainable (tick : Tick β) (setting : Setting β) : Prop where
  ascending : Ascending tick.machine.outstanding.contents.toList
  actor_ascending : Ascending tick.actor.outstanding.entries.toList
  inside : tick.machine.pending.stop ≤ setting.shape.size
  reached : ∀ entry ∈ tick.machine.outstanding.contents.toList,
    tick.machine.pending.start ≤ entry.atom → entry.atom < tick.machine.pending.stop
  /-- The cursor is a place of the array, or its end. -/
  within : tick.machine.outstandingCursor ≤ tick.actor.outstanding.entries.size
  apart : ∀ fresh ∈ tick.machine.outstanding.contents.toList,
    ∀ carried ∈ tick.actor.outstanding.entries.toList.drop tick.machine.outstandingCursor,
      fresh.atom ≠ carried.atom
  undecided : ∀ entry ∈ tick.machine.outstanding.contents.toList ++
    tick.actor.outstanding.entries.toList, entry.value.isActive = true →
      (setting.shape.atom? entry.atom).any Atom.isDecider = false
  room : tick.RoomToCancel setting (tick.due setting)

/-- A cursor stands at the first place, from where that of the outstanding actions stood, whose atom
does not lie below the end of the span, or at the end of the array. -/
structure Passes (tick : Tick β) (cursor : Nat) : Prop where
  forward : tick.machine.outstandingCursor ≤ cursor
  within : cursor ≤ tick.actor.outstanding.entries.size
  before_iff : ∀ position (inside : position < tick.actor.outstanding.entries.size),
    tick.machine.outstandingCursor ≤ position →
      (position < cursor ↔
        tick.actor.outstanding.entries[position].atom < tick.machine.pending.stop)

/-- A drain has canceled some atoms and has done no more than that: the span is empty, what this
tick left below it stays, and what the actor had before its end is passed. -/
structure Drains (setting : Setting β) (before : Tick β) (canceled : List Nat) (after : Tick β) :
    Prop extends before.Canceled setting canceled after where
  notices : Shows setting (Notice.ofCancels before.machine.frames.count canceled) before after
  pending : after.machine.pending = .empty
  outstanding : after.machine.outstanding.contents.toList =
    before.machine.outstanding.contents.toList.filter fun entry =>
      decide (entry.atom < before.machine.pending.start)
  passed : before.Passes after.machine.outstandingCursor
  machine : after.machine = { before.machine with
    pending := after.machine.pending
    outstandingCursor := after.machine.outstandingCursor
    outstanding := after.machine.outstanding
    requests := after.machine.requests
    changes := after.machine.changes }

/-- What the actor had in the span and has not been passed stands between two places of its array,
the second of which is where the cursor is moved to. -/
theorem Drainable.window (drainable : tick.Drainable setting)
    (busy : tick.machine.pending.isEmpty = false) :
    ∃ first passed, advance tick.actor.outstanding.entries tick.machine.pending.start
        tick.machine.outstandingCursor = first ∧
      first ≤ tick.actor.outstanding.entries.size ∧
      partitionPoint (tick.actor.outstanding.entries.drop first) (fun entry =>
        decide (entry.atom < tick.machine.pending.stop)) = passed ∧
      ((tick.actor.outstanding.entries.drop first).take passed).toList =
        (tick.actor.outstanding.entries.toList.drop tick.machine.outstandingCursor).filter
          (fun entry => tick.machine.pending.contains entry.atom) ∧
      tick.Passes (first + passed) := by
  have nonempty := (Span.isEmpty_eq_false_iff _).mp busy
  obtain ⟨bound, here⟩ := exists_splits drainable.actor_ascending drainable.within
  obtain ⟨first, passed, advanced, within, point, window, there⟩ :=
    here.window drainable.actor_ascending tick.machine.pending.start tick.machine.pending.stop
  refine ⟨first, passed, advanced, within, point, ?_, ?_⟩
  · rw [window, here.toList_drop, List.filter_filter]
    refine List.filter_congr fun entry _ => ?_
    rw [Bool.eq_iff_iff]
    simp only [key_entry, Bool.and_eq_true, decide_eq_true_eq, Span.contains_iff, Nat.max_le]
    constructor
    · rintro ⟨below, ahead, reached⟩
      exact ⟨⟨reached, below⟩, ahead⟩
    · rintro ⟨⟨reached, below⟩, ahead⟩
      exact ⟨below, ahead, reached⟩
  · have forward := le_advance tick.actor.outstanding.entries tick.machine.pending.start
      tick.machine.outstandingCursor
    refine ⟨by omega, there.within, fun position inside ahead => ?_⟩
    have unpassed := (here.before_iff position inside).not.mp (by omega)
    rw [there.before_iff position inside]
    simp only [key_entry] at unpassed ⊢
    omega

/-- A drain goes through all that is due, the largest atom first, and then forgets what this tick
left in the span. -/
theorem Drainable.drain_eq (drainable : tick.Drainable setting)
    (busy : tick.machine.pending.isEmpty = false) :
    ∃ canceled cursor kept, canceled.Perm (tick.due setting) ∧ canceled.Pairwise (· > ·) ∧
      tick.Passes cursor ∧ kept ≤ tick.machine.outstanding.contents.size ∧
      tick.machine.outstanding.contents.toList.take kept =
        tick.machine.outstanding.contents.toList.filter (fun entry =>
          decide (entry.atom < tick.machine.pending.start)) ∧
      tick.drain setting = do
        let told ← cancelAll setting canceled
          { tick with machine.pending := .empty, machine.outstandingCursor := cursor }
        let outstanding ← told.machine.outstanding.truncate kept
        return { told with machine.outstanding := outstanding }.log
          (.spanDrained tick.machine.pending.start tick.machine.pending.stop canceled.length) := by
  obtain ⟨kept, kept_le, kept_eq, taken, dropped, covered⟩ :=
    tick.machine.pending.exists_kept drainable.ascending drainable.reached
  obtain ⟨first, passed, advanced, first_le, point, window, passes⟩ := drainable.window busy
  refine ⟨Candidate.canceled (Candidate.merge setting.shape
    (tick.machine.outstanding.contents.drop kept).toList
    ((tick.actor.outstanding.entries.drop first).take passed).toList),
    first + passed, kept, ?_, ?_, passes, kept_le, taken, ?_⟩
  · rw [dropped, window]
    have shape : setting.shape = (tick.scene setting).shape := rfl
    rw [shape]
    refine (Candidate.canceled_perm _ _).trans (.of_eq ?_)
    rw [List.filter_filter, List.filter_filter, due]
    congr 2
    all_goals exact List.filter_congr fun entry _ => Bool.and_comm _ _
  · rw [dropped, window]
    refine Candidate.falls_canceled setting.shape (drainable.ascending.filter _)
      ((drainable.actor_ascending.sublist (List.drop_sublist _ _)).filter _) ?_
    intro fresh left carried right
    exact drainable.apart fresh (List.mem_filter.mp left).1 carried (List.mem_filter.mp right).1
  · simp only [drain, busy, Bool.false_eq_true, if_false, bind, Except.bind, pure, Except.pure,
      require, advanced, first_le, decide_true, if_true]
    simp only [kept_eq, covered, if_true]
    simp only [point]

/-- What is due in a span of the shape is due at actions. -/
theorem Drainable.isAction_of_due (drainable : tick.Drainable setting) {atom : Nat}
    (member : atom ∈ tick.due setting) :
    (setting.shape.atom? atom).any Atom.isAction = true := by
  obtain ⟨entry, held, active, below, rfl⟩ : ∃ entry : Entry Status,
      entry ∈ tick.machine.outstanding.contents.toList ++ tick.actor.outstanding.entries.toList ∧
        entry.value.isActive = true ∧ entry.atom < tick.machine.pending.stop ∧
          entry.atom = atom := by
    rcases List.mem_append.mp member with fresh | carried
    · obtain ⟨entry, kept, same⟩ := List.mem_map.mp fresh
      obtain ⟨held, owed⟩ := List.mem_filter.mp kept
      simp only [Scene.owes, Bool.and_eq_true, decide_eq_true_eq] at owed
      exact ⟨entry, List.mem_append_left _ held, owed.2.1, drainable.reached entry held owed.1,
        same⟩
    · obtain ⟨entry, kept, same⟩ := List.mem_map.mp carried
      obtain ⟨held, owed⟩ := List.mem_filter.mp kept
      rw [Bool.and_eq_true, Span.contains_iff] at owed
      exact ⟨entry, List.mem_append_right _ (List.mem_of_mem_drop held), owed.2, owed.1.2, same⟩
  have undecided := drainable.undecided entry held active
  have inside : entry.atom < setting.shape.size := Nat.lt_of_lt_of_le below drainable.inside
  rw [← Shape.atom?_isSome_iff] at inside
  obtain ⟨node, stands⟩ := Option.isSome_iff_exists.mp inside
  rw [stands] at undecided ⊢
  simpa [Atom.isAction] using undecided

theorem RoomToCancel.of_perm {first second : List Nat} (room : tick.RoomToCancel setting first)
    (permuted : second.Perm first) : tick.RoomToCancel setting second := by
  have requests : ((tick.scene setting).cancelRequests second).Perm
      ((tick.scene setting).cancelRequests first) := permuted.filterMap _
  have changes : ((tick.scene setting).slotChanges second).Perm
      ((tick.scene setting).slotChanges first) := (permuted.filter _).map _
  exact ⟨by rw [requests.length_eq]; exact room.requests,
    by rw [changes.length_eq]; exact room.changes⟩

/-- Once all that is due has been canceled, it only remains to forget what this tick left in the
span. -/
theorem Cancels.drains {cursor : Nat} {canceled : List Nat} {outstanding : Buffer (Entry Status)}
    (passes : tick.Passes cursor)
    (cancels : ({ tick with machine := { tick.machine with
      pending := .empty, outstandingCursor := cursor } } : Tick β).Cancels setting canceled after)
    (shows : Shows setting (Notice.ofCancels tick.machine.frames.count canceled) tick after)
    (capacity : outstanding.capacity = after.machine.outstanding.capacity)
    (kept : outstanding.contents.toList = tick.machine.outstanding.contents.toList.filter
      fun entry => decide (entry.atom < tick.machine.pending.start)) (event : LogEvent) :
    tick.Drains setting canceled ({ after with machine.outstanding := outstanding }.log event) := by
  let cut : Tick β := { after with machine.outstanding := outstanding }
  have cut_machine : cut.machine = { tick.machine with
      pending := .empty
      outstandingCursor := cursor
      outstanding
      requests := after.machine.requests
      changes := after.machine.changes } := by
    simp only [cut]
    rw [cancels.machine]
  obtain ⟨capacities, frames, continuations, same, changes, requests, scratch⟩ := cancels.stores
  exact {
    calls := by
      obtain ⟨calls, called, asked⟩ := cancels.calls
      exact ⟨calls, (calls_emit rfl).trans called, asked⟩
    state := cancels.state
    actor := cancels.actor
    launches := cancels.launches
    cancels := cancels.cancels
    changes := cancels.changes
    stores := ⟨capacities, frames, continuations, capacity.trans same, changes, requests, scratch⟩
    notices := shows.silent (cut.shows_log setting event)
    pending := congrArg Machine.pending cut_machine
    outstanding := kept
    passed := by
      have stands : (cut.log event).machine.outstandingCursor = cursor :=
        congrArg Machine.outstandingCursor cut_machine
      rw [stands]
      exact passes
    machine := by
      change cut.machine = { tick.machine with
        pending := cut.machine.pending
        outstandingCursor := cut.machine.outstandingCursor
        outstanding := cut.machine.outstanding
        requests := cut.machine.requests
        changes := cut.machine.changes }
      rw [cut_machine] }

/-- A drain of an empty span does nothing. A drain of any other cancels exactly what is due, each
atom once and the largest first, and does no more than that. -/
theorem drain_cancels_due {β : Type} (tick : Tick β) (setting : Setting β) :
    (tick.machine.pending.isEmpty = true → tick.drain setting = .ok tick) ∧
    (tick.machine.pending.isEmpty = false → tick.Drainable setting →
      ∃ canceled after, tick.drain setting = .ok after ∧ canceled.Perm (tick.due setting) ∧
        canceled.Pairwise (· > ·) ∧ tick.Drains setting canceled after) := by
  refine ⟨fun empty => ?_, fun busy drainable => ?_⟩
  · simp only [drain, empty, if_true]
    rfl
  obtain ⟨canceled, cursor, kept, permuted, falls, passes, kept_le, taken, drain_eq⟩ :=
    drainable.drain_eq busy
  let passing : Tick β := { tick with machine := { tick.machine with
    pending := .empty, outstandingCursor := cursor } }
  have actions : ∀ atom ∈ canceled, (setting.shape.atom? atom).any Atom.isAction = true :=
    fun atom member => drainable.isAction_of_due (permuted.mem_iff.mp member)
  have room : passing.RoomToCancel setting canceled :=
    ⟨(drainable.room.of_perm permuted).requests, (drainable.room.of_perm permuted).changes⟩
  obtain ⟨told, all, cancels⟩ := cancels_cancelAll canceled actions room
  have inside : ∀ atom ∈ canceled, (setting.shape.atom? atom).isSome = true := by
    intro atom member
    obtain ⟨node, stands, -⟩ := (Option.any_eq_true _ _).mp (actions atom member)
    exact Option.isSome_iff_exists.mpr ⟨node, stands⟩
  have shows := shows_cancelAll setting canceled passing inside told all
  have held : told.machine.outstanding.contents = tick.machine.outstanding.contents := by
    rw [cancels.machine]
  have kept_le : kept ≤ told.machine.outstanding.contents.toList.length := by
    rw [held, Array.length_toList]
    exact kept_le
  obtain ⟨outstanding, truncated, contents, capacity⟩ := Buffer.truncate_shrink kept_le
  rw [held, taken] at contents
  let ended : LogEvent :=
    .spanDrained tick.machine.pending.start tick.machine.pending.stop canceled.length
  refine ⟨canceled, { told with machine.outstanding := outstanding }.log ended, ?_, permuted, falls,
    cancels.drains passes shows capacity contents ended⟩
  simp only [passing] at all
  simp only [drain_eq, all, truncated, bind, Except.bind, pure, Except.pure, ended]

end Tick

namespace Sample

/-- Actions of all kinds under a concurrent decider. -/
def alternating : Shape Nat where
  atoms := #[.decider .concurrent 6, .immediate 0, .deferred 7 3, .persistent 0, .immediate 0,
    .deferred 8 4]
  functions := #[action]
  survey := ⟨[6], #[3], 0, 5, 1, 2⟩
  accepted := by decide

/-- All but the first action are given up. Two of them have been visited in this tick, and between
them stand two others that were active before. -/
def givingUp : Tick Nat where
  machine := { Machine.forShape alternating with
    outstanding := ⟨#[⟨1, .running⟩, ⟨3, .launch⟩, ⟨5, .launch⟩, ⟨0, .fail⟩, ⟨0, .fail⟩],
      ⟨5, 3, by decide⟩, by decide⟩
    pending := ⟨2, 6⟩
    outstandingCursor := 1 }
  actor := { Actor.forShape 5 alternating with
    outstanding := ⟨#[⟨1, .running⟩, ⟨2, .running⟩, ⟨4, .running⟩], #[⟨0, .fail⟩, ⟨0, .fail⟩]⟩ }
  board := 0

theorem drainable_givingUp : givingUp.Drainable ⟨alternating, .zero, true⟩ where
  ascending := by decide
  actor_ascending := by decide
  inside := by decide
  reached := by decide
  within := by decide
  apart := by decide
  undecided := by decide
  room := ⟨by decide, by decide⟩

end Sample

namespace Tick

/-- What both ticks left is canceled in turn; the request of the last action has been taken back
already. -/
theorem drain_cancels_due_sample :
    Sample.givingUp.Drainable ⟨Sample.alternating, .zero, true⟩ ∧
    ∃ after, Sample.givingUp.drain ⟨Sample.alternating, .zero, true⟩ = .ok after ∧
      Sample.givingUp.Drains ⟨Sample.alternating, .zero, true⟩ [4, 3, 2] after := by
  obtain ⟨canceled, after, drained, permuted, falls, drains⟩ :=
    (drain_cancels_due Sample.givingUp ⟨Sample.alternating, .zero, true⟩).2 (by decide)
      Sample.drainable_givingUp
  have due : canceled.Perm [4, 3, 2] := permuted.trans (by decide)
  have canceled_eq : canceled = [4, 3, 2] :=
    due.eq_of_pairwise (fun _ _ _ _ above below => absurd above (Nat.lt_asymm below)) falls
      (by decide)
  rw [canceled_eq] at drains
  exact ⟨Sample.drainable_givingUp, after, drained, drains⟩

end Tick

end BehaviorTree
