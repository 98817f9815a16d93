import BehaviorTree.Proofs.Simulation.Following

namespace BehaviorTree
open Ordered Checked
variable {β : Type}

/-- Only actions are canceled without fault. -/
theorem Tick.actions_of_cancelAll {setting : Setting β} {indices : List Nat} {tick after : Tick β}
    (canceled : cancelAll setting indices tick = .ok after) :
    ∀ index ∈ indices, (setting.shape.atom? index).any Atom.isDecider = false := by
  induction indices generalizing tick with
  | nil =>
    intro index member
    cases member
  | cons index indices ih =>
    rw [cancelAll] at canceled
    cases first : tick.cancelAt setting index with
    | error fault =>
      rw [first] at canceled
      cases canceled
    | ok middle =>
      rw [first] at canceled
      intro other member
      rcases List.mem_cons.mp member with rfl | later
      · cases stands : setting.shape.atom? other with
        | none => rfl
        | some node =>
          cases node with
          | decider rule stop =>
            simp only [cancelAt, stands, cancelAtom] at first
            cases first
          | immediate | deferred | persistent => rfl
      · exact ih canceled other later

/-- Of the actions, the same are canceled whether or not deciders have an active status. -/
theorem Candidate.canceled_disarm (shape : Shape β) (fresh carried : List (Entry Status)) :
    (canceled (merge shape fresh (carried.map shape.disarm))).filter
        (fun index => !(shape.atom? index).any Atom.isDecider) =
      (canceled (merge shape fresh carried)).filter
        fun index => !(shape.atom? index).any Atom.isDecider := by
  let spare (candidate : Candidate) : Candidate :=
    ⟨candidate.atom, candidate.cancels && !(shape.atom? candidate.atom).any Atom.isDecider⟩
  have spared (candidates : List Candidate) : (canceled candidates).filter
      (fun index => !(shape.atom? index).any Atom.isDecider) =
        canceled (candidates.map spare) := by
    rw [canceled, canceled, List.filter_map, List.filter_filter, List.filter_map, List.map_map]
    congr 1
    refine List.filter_congr fun candidate _ => ?_
    simp [spare, Bool.and_comm]
  have merged (others : List Candidate) :
      ((fresh.map (ofTick shape)).reverse.merge others
        (fun fresh carried => decide (carried.atom < fresh.atom))).map spare =
      ((fresh.map (ofTick shape)).reverse.map spare).merge (others.map spare)
        fun fresh carried => decide (carried.atom < fresh.atom) :=
    List.map_merge fun _ _ _ _ => rfl
  have same (entry : Entry Status) :
      spare (ofActor (shape.disarm entry)) = spare (ofActor entry) := by
    unfold Shape.disarm
    split
    · next decides => simp [spare, ofActor, decides]
    · rfl
  rw [spared, spared, merge, merge, merged, merged, List.map_reverse, List.map_reverse,
    List.map_reverse, List.map_map, List.map_map, List.map_map, List.map_map]
  congr 4
  funext entry
  exact same entry

namespace Convoy
variable {convoy : Convoy β} {leader next : Tick β}

/-- All that follow a leader fare alike: either they go on and follow what comes next, or all of
them come upon a decider that is to be canceled. -/
def Leads (convoy : Convoy β) (leader next : Tick β)
    (operation : Setting β → Tick β → Checked (Tick β)) : Prop :=
  (∀ behind watched follower, convoy.Follows behind leader follower →
    operation (convoy.setting.watch watched) follower = .error .deciderCanceled) ∨
  ∀ behind watched follower, convoy.Follows behind leader follower →
    ∃ after, operation (convoy.setting.watch watched) follower = .ok after ∧
      convoy.Follows behind next after

/-- What a follower cancels when the pending span is drained. -/
def falling (convoy : Convoy β) (leader : Tick β) : List Nat :=
  let span := leader.machine.pending
  let fresh := leader.machine.outstanding.contents
  let kept := partitionPoint fresh fun entry => decide (entry.atom < span.start)
  let reached := convoy.carried.drop
    (advance convoy.carried span.start leader.machine.outstandingCursor)
  let passed := partitionPoint reached fun entry => decide (entry.atom < span.stop)
  Candidate.canceled (Candidate.merge convoy.setting.shape (fresh.drop kept).toList
    (reached.take passed).toList)

/-- In a drain that is not idle, a follower cancels what falls; if a decider falls, it stops. -/
theorem Follows.drain {behind : List Call} {follower : Tick β}
    (follows : convoy.Follows behind leader follower) (watched : Bool)
    (busy : leader.machine.pending.isEmpty = false)
    (drained : leader.drain convoy.setting = .ok next) :
    ((∃ index ∈ convoy.falling leader,
        (convoy.setting.shape.atom? index).any Atom.isDecider = true) →
      follower.drain (convoy.setting.watch watched) = .error .deciderCanceled) ∧
    ((∀ index ∈ convoy.falling leader,
        (convoy.setting.shape.atom? index).any Atom.isDecider = false) →
      ∃ after, follower.drain (convoy.setting.watch watched) = .ok after ∧
        convoy.Follows behind next after) := by
  have dropped (first : Nat) : (convoy.carried.map convoy.setting.shape.disarm).drop first =
      (convoy.carried.drop first).map convoy.setting.shape.disarm := by
    simp
  have taken (entries : Array (Entry Status)) (passed : Nat) :
      ((entries.map convoy.setting.shape.disarm).take passed).toList =
        (entries.take passed).toList.map convoy.setting.shape.disarm := by
    simp
  have point (entries : Array (Entry Status)) (bound : Nat) :
      partitionPoint (entries.map convoy.setting.shape.disarm)
          (fun entry => decide (entry.atom < bound)) =
        partitionPoint entries fun entry => decide (entry.atom < bound) :=
    partitionPoint_map convoy.setting.shape.key_disarm entries bound
  simp only [Tick.drain, busy, Bool.false_eq_true, if_false, follows.disarmed, Array.size_map,
    advance_map convoy.setting.shape.key_disarm, dropped, point, taken] at drained
  simp only [Tick.drain, follows.machine.pending, busy, Bool.false_eq_true, if_false,
    follows.carried, follows.machine.outstandingCursor, follows.machine.outstanding.contents,
    Setting.shape_watch, falling]
  obtain ⟨_, covered, drained⟩ := bind_eq_ok.mp drained
  obtain ⟨_, inside, drained⟩ := bind_eq_ok.mp drained
  obtain ⟨canceled, cancels, drained⟩ := bind_eq_ok.mp drained
  obtain ⟨outstanding, truncated, drained⟩ := bind_eq_ok.mp drained
  obtain rfl := Except.ok.inj drained
  simp only [covered, inside, ok_bind]
  have passing (cursor : Nat) : convoy.Follows behind
      { leader with machine := { leader.machine with
        pending := .empty, outstandingCursor := cursor } }
      { follower with machine := { follower.machine with
        pending := .empty, outstandingCursor := cursor } } :=
    follows.withMachine { follows.machine with pending := rfl, outstandingCursor := rfl }
  -- The leader cancels the actions among what falls.
  have acts := Tick.actions_of_cancelAll cancels
  have spared := Candidate.canceled_disarm convoy.setting.shape
    (leader.machine.outstanding.contents.drop (partitionPoint leader.machine.outstanding.contents
      fun entry => decide (entry.atom < leader.machine.pending.start))).toList
    ((convoy.carried.drop (advance convoy.carried leader.machine.pending.start
      leader.machine.outstandingCursor)).take (partitionPoint (convoy.carried.drop
        (advance convoy.carried leader.machine.pending.start leader.machine.outstandingCursor))
          fun entry => decide (entry.atom < leader.machine.pending.stop))).toList
  rw [List.filter_eq_self.mpr fun index member => by rw [acts index member]; rfl] at spared
  rw [spared] at cancels
  constructor
  · intro meets
    rw [(passing _).cancelAll_decider watched meets cancels]
    rfl
  · intro harmless
    rw [List.filter_eq_self.mpr fun index member => by rw [harmless index member]; rfl] at cancels
    obtain ⟨other, again, more⟩ := (passing _).cancelAll watched harmless _ cancels
    obtain ⟨cut, cuts, fits⟩ := more.machine.outstanding.truncate _ _ truncated
    rw [again]
    simp only [ok_bind]
    rw [cuts]
    refine ⟨_, rfl, ?_⟩
    have left : convoy.Follows behind { canceled with machine.outstanding := outstanding }
        { other with machine.outstanding := cut } :=
      more.withMachine { more.machine with outstanding := fits }
    exact left.log _ _

/-- All followers of a leader come upon a decider in the drain, or none of them does. -/
theorem leads_drain (drained : leader.drain convoy.setting = .ok next) :
    convoy.Leads leader next fun setting tick => tick.drain setting := by
  cases idle : leader.machine.pending.isEmpty with
  | true =>
    simp only [Tick.drain, idle, if_true] at drained
    obtain rfl := Except.ok.inj drained
    refine Or.inr fun behind watched follower follows => ⟨follower, ?_, follows⟩
    simp only [Tick.drain, follows.machine.pending, idle, if_true]
    rfl
  | false =>
    by_cases meets : ∃ index ∈ convoy.falling leader,
        (convoy.setting.shape.atom? index).any Atom.isDecider = true
    · exact Or.inl fun behind watched follower follows =>
        (follows.drain watched idle drained).1 meets
    · refine Or.inr fun behind watched follower follows =>
        (follows.drain watched idle drained).2 fun index member => ?_
      exact Bool.eq_false_iff.mpr fun decides => meets ⟨index, member, decides⟩

theorem leads_nextChild {frame : Frame} (goes : leader.nextChild convoy.setting frame = .ok next) :
    convoy.Leads leader next fun setting tick => tick.nextChild setting frame := by
  obtain ⟨drained, drains, goes⟩ := bind_eq_ok.mp goes
  obtain rfl := Except.ok.inj goes
  have noticed {behind : List Call} {follower : Tick β} (watched : Bool)
      (follows : convoy.Follows behind leader follower) : convoy.Follows behind
        (Tick.notify { leader with machine.frames := leader.machine.frames.setTop frame }
          convoy.setting frame.atom (.leave ||| .fromTop))
        (Tick.notify { follower with machine.frames := follower.machine.frames.setTop frame }
          (convoy.setting.watch watched) frame.atom (.leave ||| .fromTop)) :=
    (follows.withFrames (follows.machine.frames.setTop frame)).notify watched frame.atom _
  let invokes (outcome : Checked (Tick β)) : Checked (Tick β) := do
    let tick ← outcome
    return tick.proceed .invoke
  rcases leads_drain drains with stops | leads
  · refine Or.inl fun behind watched follower follows => ?_
    exact congrArg invokes (stops behind watched _ (noticed watched follows))
  · refine Or.inr fun behind watched follower follows => ?_
    obtain ⟨other, again, more⟩ := leads behind watched _ (noticed watched follows)
    exact ⟨other.proceed .invoke, congrArg invokes again, more.proceed .invoke⟩

theorem leads_resume (resumes : leader.resume convoy.setting = .ok next) :
    convoy.Leads leader next fun setting tick => tick.resume setting := by
  cases top : leader.machine.frames.top? with
  | none =>
    simp only [Tick.resume, top] at resumes
    obtain rfl := Except.ok.inj resumes
    refine Or.inr fun behind watched follower follows => ⟨follower.proceed .cleanup, ?_,
      follows.proceed .cleanup⟩
    simp only [Tick.resume, follows.machine.frames.top?, top]
  | some frame =>
    simp only [Tick.resume, top] at resumes
    obtain ⟨⟨absorbed, machine⟩, absorbs, resumes⟩ := bind_eq_ok.mp resumes
    let noticed := leader.notify convoy.setting frame.atom (.enter ||| .fromBottom)
    -- A follower takes note of the same.
    have notes (behind : List Call) (watched : Bool) (follower : Tick β)
        (follows : convoy.Follows behind leader follower) : ∃ others,
          follower.resume (convoy.setting.watch watched) =
            (if absorbed.stop ≤ machine.cursor
              then others.leaveDecider (convoy.setting.watch watched) absorbed leader.machine.status
              else others.nextChild (convoy.setting.watch watched) absorbed) ∧
          convoy.Follows behind { noticed with machine } others := by
      have more := follows.notify watched frame.atom (.enter ||| .fromBottom)
      obtain ⟨⟨again, other⟩, absorbs_again, same, fits⟩ :=
        more.machine.absorb frame (absorbed, machine) absorbs
      obtain rfl : again = absorbed := same
      have cursor : other.cursor = machine.cursor := fits.cursor
      refine ⟨_, ?_, more.withMachine fits⟩
      simp only [Tick.resume, follows.machine.frames.top?, top, follows.machine.status]
      rw [absorbs_again]
      simp only [ok_bind, cursor]
    simp only at resumes
    split at resumes
    · next leaves =>
      refine Or.inr fun behind watched follower follows => ?_
      obtain ⟨others, resumes_again, more⟩ := notes behind watched follower follows
      simp only [resumes_again, if_pos leaves]
      exact more.leaveDecider watched absorbed leader.machine.status next resumes
    · next stays =>
      rcases leads_nextChild resumes with stops | leads
      · refine Or.inl fun behind watched follower follows => ?_
        obtain ⟨others, resumes_again, more⟩ := notes behind watched follower follows
        simp only [resumes_again, if_neg stays]
        exact stops behind watched others more
      · refine Or.inr fun behind watched follower follows => ?_
        obtain ⟨others, resumes_again, more⟩ := notes behind watched follower follows
        simp only [resumes_again, if_neg stays]
        exact leads behind watched others more

/-- Where the leader emits different keys, a follower emits the same, however it sorts them. -/
theorem Follows.reorder {behind : List Call} {follower : Tick β}
    (follows : convoy.Follows behind leader follower)
    (distinct : (leader.machine.continuations.contents.toList.map key).Nodup)
    (changes_distinct : (leader.machine.changes.contents.toList.map key).Nodup) :
    Checked.Leads leader.reorder follower.reorder (convoy.Follows behind) := by
  intro ordered reorders
  have fits := follows.machine
  have closed : leader.machine.frames.contents.toList = [] := by
    obtain ⟨lent, lends, -⟩ := bind_eq_ok.mp reorders
    unfold Buffer.lend at lends
    split at lends
    · next empty => exact (Buffer.isEmpty_iff _).mp empty
    · cases lends
  have closed_follower : follower.machine.frames.contents.toList = [] := by
    rw [fits.frames.contents]
    exact closed
  obtain ⟨continuations, sorted, sorts⟩ := reorder_sorts leader.machine.continuations.contents
    leader.machine.frames.slots
  obtain ⟨changes, changes_sorted, changes_sorts⟩ := reorder_sorts leader.machine.changes.contents
    leader.machine.changeScratch
  obtain ⟨others, sorted_again, -⟩ := reorder_sorts leader.machine.continuations.contents
    follower.machine.frames.slots
  obtain ⟨changes_again, changed_again, -⟩ := reorder_sorts leader.machine.changes.contents
    follower.machine.changeScratch
  have same := entries_eq_of_reorder distinct sorted sorted_again
  have same_changes := entries_eq_of_reorder changes_distinct changes_sorted changed_again
  have arranged : convoy.Follows behind (leader.arranged continuations changes)
      (follower.arranged others changes_again) := by
    unfold Tick.arranged
    rw [same, same_changes]
    exact follows.withMachine { fits with
      continuations := fits.continuations.overwrite sorts.size_entries
      frames := fits.frames.restore ((Buffer.isEmpty_iff _).mpr closed) _ _
      changes := fits.changes.overwrite changes_sorts.size_entries }
  have quiet (tick : Tick β) (linear : Bool) (event : LogEvent) :
      (if linear then tick else tick.log event).toMoment = tick.toMoment ∧
        (if linear then tick else tick.log event).calls = tick.calls := by
    split
    · exact ⟨rfl, rfl⟩
    · exact ⟨rfl, Tick.calls_emit rfl⟩
  obtain rfl := Except.ok.inj ((Tick.reorder_eq closed sorted changes_sorted).symm.trans reorders)
  rw [← fits.continuations.contents] at sorted_again
  rw [← fits.changes.contents] at changed_again
  exact ⟨_, Tick.reorder_eq closed_follower sorted_again changed_again,
    arranged.congr (quiet _ _ _).1 (quiet _ _ _).2 (quiet _ _ _).1 (quiet _ _ _).2⟩

/-- What the clean-up emits has different keys. -/
def EmitsDistinct (convoy : Convoy β) (cleaning : Tick β) : Prop :=
  ∀ drained, cleaning.drain convoy.setting = .ok drained →
    (drained.machine.continuations.contents.toList.map key).Nodup ∧
      (drained.machine.changes.contents.toList.map key).Nodup

theorem leads_cleanup (cleans : leader.cleanup convoy.setting = .ok next)
    (distinct : convoy.EmitsDistinct leader) :
    convoy.Leads leader next fun setting tick => tick.cleanup setting := by
  obtain ⟨drained, drains, cleans⟩ := bind_eq_ok.mp cleans
  obtain ⟨ordered, reorders, cleans⟩ := bind_eq_ok.mp cleans
  obtain ⟨_, ascends, cleans⟩ := bind_eq_ok.mp cleans
  obtain rfl := Except.ok.inj cleans
  obtain ⟨continuations, changes⟩ := distinct drained drains
  let finishes (outcome : Checked (Tick β)) : Checked (Tick β) := do
    let tick ← (← outcome).reorder
    require (decide (Ascending tick.machine.outstanding.contents.toList)) .outstandingOutOfOrder
    return tick.proceed .done
  rcases leads_drain drains with stops | leads
  · refine Or.inl fun behind watched follower follows => ?_
    exact congrArg finishes (stops behind watched follower follows)
  · refine Or.inr fun behind watched follower follows => ?_
    obtain ⟨other, again, more⟩ := leads behind watched follower follows
    obtain ⟨others, reorders_again, last⟩ := more.reorder continuations changes ordered reorders
    refine ⟨others.proceed .done, (congrArg finishes again).trans ?_, last.proceed .done⟩
    simp only [finishes, ok_bind, reorders_again, last.machine.outstanding.contents, ascends]
    rfl

/-- Wherever the leader takes a step, its followers fare alike. -/
theorem leads_step (active : leader.machine.command.isTerminal = false)
    (steps : leader.step convoy.setting = .ok next) (going : next.machine.command ≠ .error)
    (distinct : leader.machine.command = .cleanup → convoy.EmitsDistinct
      (leader.log (.stepStarted .cleanup leader.machine.cursor leader.machine.status))) :
    convoy.Leads leader next fun setting tick => tick.step setting := by
  have started (event other : LogEvent) {behind : List Call} {follower : Tick β}
      (follows : convoy.Follows behind leader follower) :
      convoy.Follows behind (leader.log event) (follower.log other) := follows.log event other
  simp only [Tick.step] at steps
  cases command : leader.machine.command with
  | invoke =>
    rw [command] at steps
    refine Or.inr fun behind watched follower follows => ?_
    simp only [Tick.step, follows.machine.command, command]
    exact (started _ _ follows).invoke watched steps going
  | resume =>
    rw [command] at steps
    rcases leads_resume steps with stops | leads
    · refine Or.inl fun behind watched follower follows => ?_
      simp only [Tick.step, follows.machine.command, command]
      exact stops behind watched _ (started _ _ follows)
    · refine Or.inr fun behind watched follower follows => ?_
      simp only [Tick.step, follows.machine.command, command]
      exact leads behind watched _ (started _ _ follows)
  | cleanup =>
    rw [command] at steps
    rcases leads_cleanup steps (distinct command) with stops | leads
    · refine Or.inl fun behind watched follower follows => ?_
      simp only [Tick.step, follows.machine.command, command]
      exact stops behind watched _ (started _ _ follows)
    · refine Or.inr fun behind watched follower follows => ?_
      simp only [Tick.step, follows.machine.command, command]
      exact leads behind watched _ (started _ _ follows)
  | done | error =>
    rw [command] at active
    cases active

/-- Steps of the leader to its end are followed by a whole run, if its budget lasts. -/
theorem leads_run {count budget : Nat} (steps : Tick.Steps convoy.setting count leader next)
    (done : next.machine.command = .done) (enough : count ≤ budget)
    (distinct : ∀ taken cleaning, Tick.Steps convoy.setting taken leader cleaning →
      cleaning.machine.command = .cleanup → convoy.EmitsDistinct
        (cleaning.log (.stepStarted .cleanup cleaning.machine.cursor cleaning.machine.status))) :
    convoy.Leads leader next fun setting tick => Tick.run setting budget tick := by
  induction steps generalizing budget with
  | refl tick =>
    have terminal {behind : List Call} {follower : Tick β}
        (follows : convoy.Follows behind tick follower) :
        follower.machine.command.isTerminal = true := by
      rw [follows.machine.command, done]
      rfl
    refine Or.inr fun behind watched follower follows => ⟨follower, ?_, follows⟩
    cases budget with
    | zero => simp only [Tick.run, terminal follows, if_true]
    | succ budget => simp only [Tick.run, terminal follows, if_true]
  | @cons count tick middle after active first rest ih =>
    cases budget with
    | zero => omega
    | succ budget =>
      have going : middle.machine.command ≠ .error := by
        intro stuck
        cases rest with
        | refl =>
          rw [stuck] at done
          cases done
        | cons active =>
          rw [stuck] at active
          cases active
      have running {behind : List Call} {follower : Tick β}
          (follows : convoy.Follows behind tick follower) :
          follower.machine.command.isTerminal = false := by
        rw [follows.machine.command]
        exact active
      have leads := ih done (Nat.le_of_succ_le_succ enough)
        fun taken cleaning steps => distinct (taken + 1) cleaning (.cons active first steps)
      rcases leads_step active first going (distinct 0 tick (.refl tick)) with stops | follow
      · refine Or.inl fun behind watched follower follows => ?_
        have stopped := stops behind watched follower follows
        simp only at stopped
        simp only [Tick.run, running follows, Bool.false_eq_true, if_false, stopped]
        rfl
      · rcases leads with stops | goes
        · refine Or.inl fun behind watched follower follows => ?_
          obtain ⟨other, again, more⟩ := follow behind watched follower follows
          simp only at again
          simp only [Tick.run, running follows, Bool.false_eq_true, if_false, again, ok_bind]
          exact stops behind watched other more
        · refine Or.inr fun behind watched follower follows => ?_
          obtain ⟨other, again, more⟩ := follow behind watched follower follows
          simp only at again
          simp only [Tick.run, running follows, Bool.false_eq_true, if_false, again, ok_bind]
          exact goes behind watched other more

end Convoy

end BehaviorTree
