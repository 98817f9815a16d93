import BehaviorTree.Proofs.Simulation.Convoy
import BehaviorTree.Proofs.Tick.Reordering

namespace BehaviorTree
open Ordered Checked
variable {β : Type}

namespace Machine

/-- A machine with any history: it has been prepared for ticks of any shapes and actors, which it
may have left halfway, and its requests may have been extracted or not. -/
inductive Used : Machine → Prop where
  | fresh (capacities : Capacities) : Used (new capacities)
  | reset {machine : Machine} (used : Used machine) : Used machine.reset
  | prepareUpdate {β : Type} {shape : Shape β} {actor : Actor} {machine after : Machine}
      (used : Used machine) (prepares : machine.prepareUpdate actor shape = .ok after) : Used after
  | prepareCancel {β : Type} {shape : Shape β} {actor : Actor} {machine after : Machine}
      (used : Used machine) (prepares : machine.prepareCancel actor shape = .ok after) : Used after
  | step {β : Type} {setting : Setting β} {tick after : Tick β} (used : Used tick.machine)
      (steps : tick.step setting = .ok after) : Used after.machine
  | takeRequests {machine : Machine} (used : Used machine) (actor : Nat) :
      Used (machine.takeRequests actor).2

/-- A tick that runs to its end has used its machine. -/
theorem Used.run {setting : Setting β} {tick after : Tick β} (used : tick.machine.Used)
    (budget : Nat) (runs : Tick.run setting budget tick = .ok after) : after.machine.Used := by
  induction budget generalizing tick with
  | zero =>
    unfold Tick.run at runs
    split at runs
    · obtain rfl := Except.ok.inj runs
      exact used
    · cases runs
  | succ budget ih =>
    unfold Tick.run at runs
    split at runs
    · obtain rfl := Except.ok.inj runs
      exact used
    · obtain ⟨middle, steps, rest⟩ := bind_eq_ok.mp runs
      exact ih (used.step steps) rest

/-- Whole ticks have used their machine, whether they were refused or not. -/
theorem Used.complete {setting : Setting β} {tick : Tick β} {outcome : Outcome β}
    {prepared : Except MachineError Machine} (used : tick.machine.Used)
    (prepares : ∀ machine, prepared = .ok machine → machine.Used)
    (completes : tick.complete setting prepared = .ok outcome) : outcome.tick.machine.Used := by
  cases prepared with
  | error refused =>
    obtain rfl := Except.ok.inj completes
    exact used
  | ok machine =>
    obtain ⟨settled, runs, finishes⟩ := bind_eq_ok.mp completes
    have used_up : settled.machine.Used := Used.run (prepares machine rfl) _ runs
    simp only [Tick.finish] at finishes
    split at finishes
    · obtain rfl := Except.ok.inj finishes
      exact used_up
    · obtain ⟨actor, -, finishes⟩ := bind_eq_ok.mp finishes
      obtain rfl := Except.ok.inj finishes
      exact used_up

theorem Used.update {setting : Setting β} {tick : Tick β} {outcome : Outcome β}
    (used : tick.machine.Used) (updates : tick.update setting = .ok outcome) :
    outcome.tick.machine.Used :=
  used.complete (fun _ prepares => used.prepareUpdate prepares) updates

theorem Used.cancel {setting : Setting β} {tick : Tick β} {outcome : Outcome β}
    (used : tick.machine.Used) (cancels : tick.cancel setting = .ok outcome) :
    outcome.tick.machine.Used :=
  used.complete (fun _ prepares => used.prepareCancel prepares) cancels

theorem stores_reset (machine : Machine) : machine.Stores machine.reset :=
  ⟨rfl, rfl, rfl, rfl, rfl, rfl, rfl⟩

theorem stores_prepareUpdate {machine after : Machine} {actor : Actor} {shape : Shape β}
    (prepares : machine.prepareUpdate actor shape = .ok after) : machine.Stores after := by
  rw [eq_of_prepareUpdate prepares]
  exact ⟨rfl, rfl, rfl, rfl, rfl, rfl, rfl⟩

theorem stores_prepareCancel {machine after : Machine} {actor : Actor} {shape : Shape β}
    (prepares : machine.prepareCancel actor shape = .ok after) : machine.Stores after := by
  rw [eq_of_prepareCancel prepares]
  exact ⟨rfl, rfl, rfl, rfl, rfl, rfl, rfl⟩

/-- A machine of any history can hold as much as when it was set up. -/
theorem Used.stores {machine : Machine} (used : machine.Used) :
    ∃ capacities, (Machine.new capacities).Stores machine := by
  induction used with
  | fresh capacities => exact ⟨capacities, .refl _⟩
  | reset _ ih =>
    obtain ⟨capacities, stores⟩ := ih
    exact ⟨capacities, stores.trans (stores_reset _)⟩
  | prepareUpdate _ prepares ih =>
    obtain ⟨capacities, stores⟩ := ih
    exact ⟨capacities, stores.trans (stores_prepareUpdate prepares)⟩
  | prepareCancel _ prepares ih =>
    obtain ⟨capacities, stores⟩ := ih
    exact ⟨capacities, stores.trans (stores_prepareCancel prepares)⟩
  | step _ steps ih =>
    obtain ⟨capacities, stores⟩ := ih
    exact ⟨capacities, stores.trans (Tick.stores_step _ _ _ steps)⟩
  | takeRequests _ actor ih =>
    obtain ⟨capacities, stores⟩ := ih
    exact ⟨capacities, stores.trans ⟨rfl, rfl, rfl, rfl, rfl, rfl, rfl⟩⟩

theorem Stores.sized {before after : Machine} (stores : before.Stores after)
    (sized : before.Sized) : after.Sized := by
  rw [Sized, stores.capacities, stores.frames, stores.continuations, stores.outstanding,
    stores.changes, stores.requests]
  exact sized

/-- The buffers of a machine of any history are as large as it says. -/
theorem Used.sized {machine : Machine} (used : machine.Used) : machine.Sized := by
  obtain ⟨capacities, stores⟩ := used.stores
  exact stores.sized (sized_new capacities)

/-- A machine for exactly one shape supports it. -/
theorem supports_forShape (shape : Shape β) : (forShape shape).supports shape.needs = true :=
  (Capacities.covers_iff _ _).mpr fun _ => Nat.le_refl _

end Machine

/-- A machine that is set up to cover several needs supports each of them. -/
theorem Config.supports_covering {needs : Capacities} {all : List Capacities}
    (member : needs ∈ all) : (Machine.ofConfig (covering all)).supports needs = true := by
  have grows (start : Capacities) (all : List Capacities) (resource : Resource) :
      start.get resource ≤ (all.foldl Capacities.union start).get resource ∧
        ∀ needs ∈ all, needs.get resource ≤ (all.foldl Capacities.union start).get resource := by
    induction all generalizing start with
    | nil => exact ⟨Nat.le_refl _, fun needs member => by cases member⟩
    | cons first rest ih =>
      have union : (start.union first).get resource =
          max (start.get resource) (first.get resource) := Capacities.get_ofFn _ resource
      obtain ⟨from_start, from_rest⟩ := ih (start.union first)
      rw [union] at from_start
      rw [List.foldl_cons]
      refine ⟨by omega, fun needs member => ?_⟩
      rcases List.mem_cons.mp member with rfl | later
      · omega
      · exact from_rest needs later
  exact (Capacities.covers_iff _ _).mpr fun resource => (grows {} all resource).2 needs member

/-- Two actors agree in all but their handles and the spare room behind their entries, with whatever
is stale in it. -/
structure Actor.Agrees (actor other : Actor) : Prop where
  id : other.id = actor.id
  seed : other.seed = actor.seed
  slots : other.slots = actor.slots
  continuations : other.continuations.entries = actor.continuations.entries
  outstanding : other.outstanding.entries = actor.outstanding.entries

theorem SparseStates.entries_of_replace? {ν : Type} {states after : SparseStates ν}
    {entries : Array (Entry ν)} (replaced : states.replace? entries = some after) :
    after.entries = entries := by
  unfold replace? at replaced
  split at replaced
  · obtain rfl := Option.some.inj replaced
    rfl
  · cases replaced

theorem SparseStates.replace?_fits {ν : Type} (states : SparseStates ν) {entries : Array (Entry ν)}
    (fits : entries.size ≤ states.capacity) :
    ∃ after, states.replace? entries = some after ∧ after.entries = entries :=
  ⟨_, if_pos fits, rfl⟩

/-- The actor of a follower takes over what the actor of the leader does, if there is room. -/
theorem Convoy.Follows.extract {convoy : Convoy β} {behind : List Call} {leader follower : Tick β}
    (follows : convoy.Follows behind leader follower)
    (continuations_room :
      leader.machine.continuations.contents.size ≤ follower.actor.continuations.capacity)
    (outstanding_room :
      leader.machine.outstanding.contents.size ≤ follower.actor.outstanding.capacity) :
    Checked.Leads (leader.machine.extract convoy.setting.shape leader.actor)
      (follower.machine.extract convoy.setting.shape follower.actor) Actor.Agrees := by
  intro actor extracts
  have fits := follows.machine
  unfold Machine.extract at extracts ⊢
  obtain ⟨_, ready, extracts⟩ := bind_eq_ok.mp extracts
  obtain ⟨continuations, kept, kept_entries⟩ :=
    follower.actor.continuations.replace?_fits continuations_room
  obtain ⟨outstanding, stays, stays_entries⟩ :=
    follower.actor.outstanding.replace?_fits outstanding_room
  simp only [fits.command, ready, ok_bind, fits.continuations.contents, kept,
    fits.outstanding.contents, stays, fits.changes.contents, follows.slots]
  split at extracts
  · next continuations_led kept_led =>
    split at extracts
    · next outstanding_led stays_led =>
      obtain ⟨slots, written, extracts⟩ := bind_eq_ok.mp extracts
      obtain rfl := Except.ok.inj extracts
      rw [written]
      refine ⟨_, rfl, ⟨follows.id, follows.seed, rfl, ?_, ?_⟩⟩
      · exact kept_entries.trans (SparseStates.entries_of_replace? kept_led).symm
      · exact stays_entries.trans (SparseStates.entries_of_replace? stays_led).symm
    · cases extracts
  · cases extracts

namespace Tick

/-- Two ticks leave the same: they have made the same calls, the blackboards are equal and the
actors agree, ascending again, and the machines report the same requests and changes. -/
structure LeaveSame (one other after others : Tick β) : Prop where
  calls : ∃ made, after.calls = one.calls ++ made ∧ others.calls = other.calls ++ made
  board : others.board = after.board
  actor : after.actor.Agrees others.actor
  ascending : after.actor.isAscending = true
  requests : (others.machine.takeRequests others.actor.id).1 =
    (after.machine.takeRequests after.actor.id).1
  extracted : ∀ room,
    (others.machine.takeRequestsInto others.actor.id room).map (fun taken => (taken.1, taken.2.1)) =
      (after.machine.takeRequestsInto after.actor.id room).map fun taken => (taken.1, taken.2.1)
  changes : others.machine.changes.contents = after.machine.changes.contents

/-- Two ticks come to the same: they answer and leave the same, or an active status at a decider
stops both of them. -/
def ComeToSame (shape : Shape β) (one other : Tick β) (first second : Checked (Outcome β)) : Prop :=
  (∃ result after others, first = .ok ⟨.ok result, after⟩ ∧ second = .ok ⟨.ok result, others⟩ ∧
    LeaveSame one other after others) ∨
  (first = .error .deciderCanceled ∧ second = .error .deciderCanceled ∧
    ∃ entry ∈ one.actor.outstanding.entries.toList, entry.value.isActive = true ∧
      (shape.atom? entry.atom).any Atom.isDecider = true)

/-- The same tick with a new machine that has just the room that is needed, with no active status at
a decider and no trace. -/
def bare (tick : Tick β) (shape : Shape β) : Tick β where
  machine := .forShape shape
  actor := { tick.actor with
    outstanding := { tick.actor.outstanding with
      entries := tick.actor.outstanding.entries.map shape.disarm } }
  board := tick.board

variable {tick : Tick β} {setting : Setting β}

/-- The bare tick fits if the actor supports the shape and ascends. -/
theorem fit_bare (supports : tick.actor.supports setting.shape.needs = true)
    (ascending : tick.actor.isAscending = true) : (tick.bare setting.shape).Fit setting where
  sized := Machine.sized_new _
  covers := Machine.supports_forShape setting.shape
  supports := by
    rw [Actor.supports_iff] at supports ⊢
    simpa [bare, SparseStates.capacity] using supports
  ascending := by
    obtain ⟨continuations, outstanding⟩ := tick.actor.isAscending_iff.mp ascending
    refine (Actor.isAscending_iff _).mpr ⟨continuations, ?_⟩
    simp only [bare, Array.toList_map, Ascending, List.pairwise_map, setting.shape.key_disarm]
    exact outstanding
  undecided := by
    intro entry member active
    simp only [bare, Array.toList_map] at member
    obtain ⟨carried, -, rfl⟩ := List.mem_map.mp member
    unfold Shape.disarm at active ⊢
    split at active
    · cases active
    · next decides =>
      rw [if_neg decides]
      exact Bool.eq_false_iff.mpr decides

/-- All ticks that agree with a given one form a convoy. -/
def convoy (tick : Tick β) (setting : Setting β) : Convoy β :=
  ⟨setting, tick.actor.outstanding.entries, []⟩

/-- Prepared in the same way, a tick that agrees with another one follows its bare form. -/
theorem follows_bare {follower : Tick β} (sized : follower.machine.Sized)
    (covers : follower.machine.supports setting.shape.needs = true)
    (supports : follower.actor.supports setting.shape.needs = true)
    (agrees : tick.actor.Agrees follower.actor) (board : follower.board = tick.board)
    (command : Command) (status : Status) (pending : Span) :
    (tick.convoy setting).Follows follower.calls
      { tick.bare setting.shape with machine :=
        { (tick.bare setting.shape).machine.reset with command, status, pending } }
      { follower with machine := { follower.machine.reset with command, status, pending } } := by
  have enough := (Capacities.covers_iff _ _).mp covers
  have cleared {α : Type} {buffer other : Buffer α} (room : buffer.capacity ≤ other.capacity) :
      buffer.clear.FitsIn other.clear :=
    ⟨by rw [Buffer.contents_clear, Buffer.contents_clear], room⟩
  exact {
    machine := {
      command := rfl
      status := rfl
      cursor := rfl
      continuationCursor := rfl
      outstandingCursor := rfl
      slotCursor := rfl
      frames := cleared (by rw [sized.frames]; exact enough .frames)
      pending := rfl
      continuations := cleared (by rw [sized.continuations]; exact enough .continuations)
      outstanding := cleared (by rw [sized.outstanding]; exact enough .outstanding)
      changes := cleared (by rw [sized.changes]; exact enough .slotChanges)
      requests := ⟨by simp [Machine.reset], by simp [Machine.reset], by
        show setting.shape.needs.requests ≤ follower.machine.requests.capacity
        rw [sized.requests]
        exact enough .requests⟩ }
    board := board
    id := agrees.id
    seed := agrees.seed
    slots := agrees.slots
    continuations := agrees.continuations
    carried := agrees.outstanding
    disarmed := rfl
    supports := supports
    calls := ⟨[], rfl, (List.append_nil _).symm⟩ }

end Tick

namespace Convoy
variable {convoy : Convoy β} {behind : List Call} {leader follower left : Tick β} {result : Status}

/-- What a follower has left at its end is what the leader has left. -/
structure Ends (convoy : Convoy β) (behind : List Call) (left after : Tick β) : Prop where
  machine : left.machine.FitsIn after.machine
  board : after.board = left.board
  actor : left.actor.Agrees after.actor
  calls : ∃ made, left.calls = convoy.before ++ made ∧ after.calls = behind ++ made

/-- Where the leader has just the room that is needed, its follower finishes as it does. -/
theorem Follows.finish (follows : convoy.Follows behind leader follower) (watched : Bool)
    (sized : leader.machine.Sized)
    (needed : leader.machine.capacities = convoy.setting.shape.needs)
    (finishes : leader.finish convoy.setting = .ok ⟨.ok result, left⟩) :
    ∃ after, follower.finish (convoy.setting.watch watched) = .ok ⟨.ok result, after⟩ ∧
      convoy.Ends behind left after := by
  obtain ⟨-, continuations_room, outstanding_room⟩ :=
    (follower.actor.supports_iff convoy.setting.shape.needs).mp follows.supports
  have continuations_held :
      leader.machine.continuations.contents.size ≤ convoy.setting.shape.needs.continuations := by
    rw [Buffer.size_contents, ← needed, ← sized.continuations]
    exact leader.machine.continuations.counter.within
  have outstanding_held :
      leader.machine.outstanding.contents.size ≤ convoy.setting.shape.needs.outstanding := by
    rw [Buffer.size_contents, ← needed, ← sized.outstanding]
    exact leader.machine.outstanding.counter.within
  unfold Tick.finish at finishes ⊢
  simp only [follows.machine.command, Setting.shape_watch] at finishes ⊢
  split at finishes
  · have refused := congrArg Outcome.answer (Except.ok.inj finishes)
    cases refused
  · next active =>
    rw [if_neg active]
    obtain ⟨actor, extracts, finishes⟩ := bind_eq_ok.mp finishes
    obtain ⟨other, again, agrees⟩ := follows.extract
      (Nat.le_trans continuations_held continuations_room)
      (Nat.le_trans outstanding_held outstanding_room) actor extracts
    obtain ⟨answered, rfl⟩ := Outcome.mk.inj (Except.ok.inj finishes)
    obtain rfl := Except.ok.inj answered
    rw [again, ok_bind, follows.machine.status]
    refine ⟨_, rfl, ⟨follows.machine, follows.board, agrees, ?_⟩⟩
    obtain ⟨made, led, followed⟩ := follows.calls
    refine ⟨made, ?_, ?_⟩
    · rw [← led]
      exact Tick.calls_emit rfl
    · rw [← followed]
      exact Tick.calls_emit rfl

/-- Two followers leave the same at their end. -/
theorem Ends.leaveSame {one other after others : Tick β} (first : convoy.Ends one.calls left after)
    (second : convoy.Ends other.calls left others) (ascends : left.actor.isAscending = true) :
    Tick.LeaveSame one other after others where
  calls := by
    obtain ⟨made, led, followed⟩ := first.calls
    obtain ⟨again, led_again, followed_again⟩ := second.calls
    obtain rfl := List.append_cancel_left (led_again.symm.trans led)
    exact ⟨again, followed, followed_again⟩
  board := second.board.trans first.board.symm
  actor := ⟨second.actor.id.trans first.actor.id.symm,
    second.actor.seed.trans first.actor.seed.symm, second.actor.slots.trans first.actor.slots.symm,
    second.actor.continuations.trans first.actor.continuations.symm,
    second.actor.outstanding.trans first.actor.outstanding.symm⟩
  ascending := by
    rw [Actor.isAscending_iff] at ascends ⊢
    rw [first.actor.continuations, first.actor.outstanding]
    exact ascends
  requests := by
    simp only [Machine.takeRequests, RequestQueue.forActor, first.machine.requests.launches,
      first.machine.requests.cancels, first.actor.id, second.machine.requests.launches,
      second.machine.requests.cancels, second.actor.id]
  extracted := by
    intro room
    simp only [Machine.takeRequestsInto, Machine.takeRequests, RequestQueue.forActor,
      first.machine.requests.count, first.machine.requests.launches,
      first.machine.requests.cancels, first.actor.id, second.machine.requests.count,
      second.machine.requests.launches, second.machine.requests.cancels, second.actor.id]
    split <;> rfl
  changes := second.machine.changes.contents.trans first.machine.changes.contents.symm

end Convoy

namespace Tick
variable {one other : Tick β} {setting : Setting β}

/-- What is emitted in a traversal that sorts by stacks has different keys. -/
theorem SortsLinearly.emitsDistinct {begun : Tick β} (sorts : SortsLinearly setting begun)
    {count : Nat} {cleaning : Tick β} (steps : Steps setting count begun cleaning)
    (cleanup : cleaning.machine.command = .cleanup) (tick : Tick β) :
    (tick.convoy setting).EmitsDistinct
      (cleaning.log (.stepStarted .cleanup cleaning.machine.cursor cleaning.machine.status)) := by
  obtain ⟨drained, _, _, _, _, cleans⟩ := sorts.sorts count cleaning steps cleanup
  intro again drains
  obtain rfl := Except.ok.inj (drains.symm.trans cleans.drains)
  exact ⟨cleans.recorded.distinct, cleans.changed.distinct⟩

/-- What two ticks must be given to come to the same: each of them has room for the shape, whatever
its machine holds, and their actors agree and ascend. -/
structure Alike (setting : Setting β) (one other : Tick β) : Prop where
  sized : one.machine.Sized
  covers : one.machine.supports setting.shape.needs = true
  supports : one.actor.supports setting.shape.needs = true
  other_sized : other.machine.Sized
  other_covers : other.machine.supports setting.shape.needs = true
  other_supports : other.actor.supports setting.shape.needs = true
  ascending : one.actor.isAscending = true
  actor : one.actor.Agrees other.actor
  board : other.board = one.board

namespace Alike

theorem checkRoom (alike : Alike setting one other) :
    one.machine.checkRoom one.actor setting.shape = .ok () ∧
      other.machine.checkRoom other.actor setting.shape = .ok () := by
  have enough : one.machine.capacities.shortfall? setting.shape.needs = none :=
    Option.isNone_iff_eq_none.mp alike.covers
  have enough_other : other.machine.capacities.shortfall? setting.shape.needs = none :=
    Option.isNone_iff_eq_none.mp alike.other_covers
  constructor
  · simp only [Machine.checkRoom, enough, alike.supports, if_true]
  · simp only [Machine.checkRoom, enough_other, alike.other_supports, if_true]

/-- Without active statuses at deciders, the first tick fits. -/
theorem fit (alike : Alike setting one other)
    (undecided : ¬∃ entry ∈ one.actor.outstanding.entries.toList, entry.value.isActive = true ∧
      (setting.shape.atom? entry.atom).any Atom.isDecider = true) : one.Fit setting where
  sized := alike.sized
  covers := alike.covers
  supports := alike.supports
  ascending := alike.ascending
  undecided entry member active :=
    Bool.eq_false_iff.mpr fun decides => undecided ⟨entry, member, active, decides⟩

/-- Where the bare form of a tick comes to its end, the tick and all that are alike come to the
same. -/
theorem complete (alike : Alike setting one other) (watched : Bool) {command : Command}
    {status result : Status} {pending : Span} {count : Nat} {settled left : Tick β}
    (enough : count ≤ stepBudget setting.shape)
    (steps : Steps setting count { one.bare setting.shape with machine :=
      { (one.bare setting.shape).machine.reset with command, status, pending } } settled)
    (done : settled.machine.command = .done)
    (finishes : settled.finish setting = .ok ⟨.ok result, left⟩)
    (ascends : left.actor.isAscending = true)
    (sorts : SortsLinearly setting { one.bare setting.shape with machine :=
      { (one.bare setting.shape).machine.reset with command, status, pending } })
    (completes : one.Fit setting → ∃ result after, one.complete setting
      (.ok { one.machine.reset with command, status, pending }) = .ok ⟨.ok result, after⟩) :
    ComeToSame setting.shape one other
      (one.complete setting (.ok { one.machine.reset with command, status, pending }))
      (other.complete (setting.watch watched)
        (.ok { other.machine.reset with command, status, pending })) := by
  have first := follows_bare alike.sized alike.covers alike.supports
    ⟨rfl, rfl, rfl, rfl, rfl⟩ rfl command status pending
  have second := follows_bare alike.other_sized alike.other_covers alike.other_supports
    alike.actor alike.board command status pending
  have stores := steps.stores
  have sized : settled.machine.Sized := stores.sized (Machine.sized_new setting.shape.needs)
  have needed : settled.machine.capacities = setting.shape.needs := stores.capacities
  let finish (setting : Setting β) (outcome : Checked (Tick β)) : Checked (Outcome β) := do
    let tick ← outcome
    tick.finish setting
  rcases Convoy.leads_run steps done enough fun taken cleaning reached cleanup =>
    sorts.emitsDistinct reached cleanup one with stops | leads
  · have stopped : one.complete setting (.ok { one.machine.reset with command, status, pending }) =
        .error .deciderCanceled :=
      congrArg (finish setting) (stops one.calls setting.monitored _ first)
    have stopped_other : other.complete (setting.watch watched)
        (.ok { other.machine.reset with command, status, pending }) = .error .deciderCanceled :=
      congrArg (finish (setting.watch watched)) (stops other.calls watched _ second)
    refine Or.inr ⟨stopped, stopped_other, ?_⟩
    by_contra undecided
    obtain ⟨_, _, completed⟩ := completes (alike.fit undecided)
    rw [stopped] at completed
    cases completed
  · obtain ⟨after, ran, follows⟩ := leads one.calls setting.monitored _ first
    obtain ⟨others, ran_other, follows_other⟩ := leads other.calls watched _ second
    obtain ⟨left_one, finishes_one, ends⟩ := follows.finish setting.monitored sized needed finishes
    obtain ⟨left_other, finishes_other, ends_other⟩ :=
      follows_other.finish watched sized needed finishes
    exact Or.inl ⟨result, left_one, left_other,
      (congrArg (finish setting) ran).trans finishes_one,
      (congrArg (finish (setting.watch watched)) ran_other).trans finishes_other,
      ends.leaveSame ends_other ascends⟩

/-- Updates of ticks that are alike come to the same, whether they are watched or not. -/
theorem update (alike : Alike setting one other) (watched : Bool) :
    ComeToSame setting.shape one other (one.update setting)
      (other.update (setting.watch watched)) := by
  have fit := fit_bare alike.supports alike.ascending
  obtain ⟨room, room_other⟩ := alike.checkRoom
  obtain ⟨left, ⟨machine, count, settled, prepares, enough, steps, done, finishes⟩, performs⟩ :=
    fit.update_performs
  obtain rfl := Machine.eq_of_prepareUpdate prepares
  have sorts := fit.update_sorts Array.size_replicate
  rw [Tick.update, Tick.update, Setting.shape_watch, Machine.prepareUpdate_eq room,
    Machine.prepareUpdate_eq room_other]
  have ascends := performs.ascending fit.update_sound
  refine alike.complete watched enough steps done finishes ascends sorts fun fits => ?_
  obtain ⟨after, completed, -⟩ := fits.update_performs
  have completes := completed.complete_eq
  rw [Machine.prepareUpdate_eq room] at completes
  exact ⟨_, after, completes⟩

/-- Cancellations of ticks that are alike come to the same, whether they are watched or not. -/
theorem cancel (alike : Alike setting one other) (watched : Bool) :
    ComeToSame setting.shape one other (one.cancel setting)
      (other.cancel (setting.watch watched)) := by
  have fit := fit_bare alike.supports alike.ascending
  obtain ⟨room, room_other⟩ := alike.checkRoom
  obtain ⟨left, ⟨machine, count, settled, prepares, enough, steps, done, finishes⟩, performs⟩ :=
    fit.cancel_performs
  obtain rfl := Machine.eq_of_prepareCancel prepares
  have sorts := fit.cancel_sorts Array.size_replicate
  rw [Tick.cancel, Tick.cancel, Setting.shape_watch, Machine.prepareCancel_eq room,
    Machine.prepareCancel_eq room_other]
  have ascends := performs.ascending fit.cancel_sound
  refine alike.complete watched enough steps done finishes ascends sorts fun fits => ?_
  obtain ⟨after, completed, -⟩ := fits.cancel_performs
  have completes := completed.complete_eq
  rw [Machine.prepareCancel_eq room] at completes
  exact ⟨_, after, completes⟩

end Alike

end Tick

namespace Sample

/-- A machine with room for a larger shape, left halfway through a tick of another actor. -/
def worn : Machine :=
  match (Machine.ofConfig (.covering [⟨9, 2, 3, 7, 2, 4, 6⟩, shape.needs])).prepareUpdate
      (.forShape 6 shape) shape with
  | .error _ => .forShape shape
  | .ok machine =>
      ((fun begun : Tick Nat => (begun.step setting).toOption.getD begun)^[4]
        { machine, actor := .forShape 6 shape, board := 3 }).machine

/-- The sample's actor with room to spare and other stale values. -/
def roomy : Actor :=
  { actor with
    handle := 9
    continuations := .empty 2 5
    outstanding := ⟨actor.outstanding.entries, #[⟨1, .cancel⟩, ⟨7, .success⟩]⟩ }

theorem used_worn : worn.Used := by
  unfold worn
  split
  · exact .fresh _
  · next machine prepares =>
    have prepared : Machine.Used machine := (Machine.Used.fresh _).prepareUpdate prepares
    have begun_used (count : Nat) (begun : Tick Nat) (used : begun.machine.Used) :
        ((fun begun : Tick Nat => (begun.step setting).toOption.getD begun)^[count]
          begun).machine.Used := by
      induction count generalizing begun with
      | zero => exact used
      | succ count ih =>
        rw [Function.iterate_succ_apply]
        apply ih
        cases steps : begun.step setting with
        | error => exact used
        | ok after => exact used.step steps
    exact begun_used 4 _ prepared

end Sample

namespace Tick

/-- Whatever two machines have done before and however much room they and the actors have to spare,
ticks of actors that agree come to the same. Between ticks the sparse arrays of an actor ascend, and
so they do afterwards. Machines that are made for the shape, or set up to cover it among others,
have room for it. -/
theorem reuse_unobservable {β : Type} (one other : Tick β) (setting : Setting β)
    (used : one.machine.Used) (covers : one.machine.supports setting.shape.needs = true)
    (supports : one.actor.supports setting.shape.needs = true)
    (other_used : other.machine.Used)
    (other_covers : other.machine.supports setting.shape.needs = true)
    (other_supports : other.actor.supports setting.shape.needs = true)
    (ascending : one.actor.isAscending = true) (agrees : one.actor.Agrees other.actor)
    (board : other.board = one.board) :
    ComeToSame setting.shape one other (one.update setting) (other.update setting) ∧
      ComeToSame setting.shape one other (one.cancel setting) (other.cancel setting) ∧
      (Machine.forShape setting.shape).supports setting.shape.needs = true ∧
      ∀ all, setting.shape.needs ∈ all →
        (Machine.ofConfig (.covering all)).supports setting.shape.needs = true := by
  have alike : Alike setting one other := ⟨used.sized, covers, supports, other_used.sized,
    other_covers, other_supports, ascending, agrees, board⟩
  exact ⟨alike.update setting.monitored, alike.cancel setting.monitored,
    Machine.supports_forShape setting.shape, fun _ => Config.supports_covering⟩

/-- The sample is updated by the worn machine, in an actor with room to spare, as by a new one. -/
theorem reuse_unobservable_sample :
    Sample.worn.Used ∧ Sample.worn.requests.count = 1 ∧ Sample.actor.Agrees Sample.roomy ∧
    ∃ result after others, Sample.tick.update Sample.setting = .ok ⟨.ok result, after⟩ ∧
      update { Sample.tick with machine := Sample.worn, actor := Sample.roomy } Sample.setting =
        .ok ⟨.ok result, others⟩ ∧
      LeaveSame Sample.tick { Sample.tick with machine := Sample.worn, actor := Sample.roomy }
        after others := by
  have agrees : Sample.actor.Agrees Sample.roomy := ⟨rfl, rfl, rfl, rfl, rfl⟩
  have covers : Sample.worn.supports Sample.shape.needs = true := by decide +kernel
  have supports : Sample.roomy.supports Sample.shape.needs = true := by decide +kernel
  have comes := (reuse_unobservable Sample.tick
    { Sample.tick with machine := Sample.worn, actor := Sample.roomy } Sample.setting (.fresh _)
    Sample.fit.covers Sample.fit.supports Sample.used_worn covers supports Sample.fit.ascending
    agrees rfl).1
  refine ⟨Sample.used_worn, by decide +kernel, agrees, ?_⟩
  rcases comes with same | ⟨-, -, entry, member, active, decides⟩
  · exact same
  · have undecided := Sample.fit.undecided entry member active
    rw [undecided] at decides
    cases decides

end Tick

end BehaviorTree
