import BehaviorTree.Proofs.Simulation.Recording
import BehaviorTree.Proofs.Tick.Ordering
import BehaviorTree.Proofs.Tick.Stepping

/-!
The invariant of the steps is that no cursor has passed an atom that lies ahead.
-/

namespace BehaviorTree
open Checked Recording
variable {β : Type}

/-- What is due depends on what the actor remembers only. -/
theorem Scan.GoesOn.due_eq {tick after : Tick β} (goes : tick.scan.GoesOn after.scan)
    (shape : Shape β) : Lookup.due shape after.actor = Lookup.due shape tick.actor := by
  have outstanding : after.actor.outstanding = tick.actor.outstanding := goes.outstanding
  have continuations : after.actor.continuations = tick.actor.continuations := goes.continuations
  funext atom
  simp only [Lookup.due, outstanding, continuations]

namespace Tick
variable {tick after : Tick β} {setting : Setting β}

/-- The nodes that have been visited so far, in order. -/
def visited (tick : Tick β) : List Nat := tick.story.filterMap Happening.entry?

/-- The node that the next step visits, if it visits one. -/
def upcoming (tick : Tick β) : List Nat :=
  if tick.machine.command = .invoke then [tick.machine.cursor] else []

theorem visited_step (step : tick.step setting = .ok after) :
    after.visited = tick.visited ++ tick.upcoming := by
  have tells {told : List Happening} (shown : after.story = tick.story ++ told) :
      after.visited = tick.visited ++ told.filterMap Happening.entry? := by
    rw [visited, shown, List.filterMap_append]
    rfl
  have quiet (same : tick.Quiet after) : after.visited = tick.visited ++ [] := by
    rw [List.append_nil, visited, same]
    rfl
  unfold upcoming
  cases command : tick.machine.command with
  | invoke =>
    have visits {leaf : Leaf}
        (stands : setting.shape.atom? tick.machine.cursor = some leaf.atom) :
        after.visited = tick.visited ++ [tick.machine.cursor] :=
      tells (story_visit step command stands)
    cases stands : setting.shape.atom? tick.machine.cursor with
    | none =>
      simp only [Tick.step, command, Tick.invoke, log, emit, stands] at step
      obtain rfl := Except.ok.inj step
      simp [visited, story, proceed, Event.happening?, Happening.entry?]
    | some atom =>
      cases atom with
      | decider rule stop => exact tells (story_enter step command stands)
      | immediate function =>
        exact visits (stands.trans (show _ = some (Leaf.immediate function).atom from rfl))
      | deferred action resource =>
        exact visits (stands.trans (show _ = some (Leaf.deferred action resource).atom from rfl))
      | persistent slot =>
        exact visits (stands.trans (show _ = some (Leaf.persistent slot).atom from rfl))
  | resume =>
    cases top : tick.machine.frames.top? with
    | none => exact quiet (quiet_closed step command top)
    | some frame =>
      refine (tells (story_resume step command top)).trans ?_
      split <;> rfl
  | cleanup => exact quiet (quiet_cleanup step command)
  | done | error =>
    simp only [Tick.step, command] at step
    obtain rfl := Except.ok.inj step
    exact quiet (quiet_emit rfl)

/-- How an update stands between its steps: no cursor has passed what may still be visited. -/
inductive Stage (shape : Shape β) (tick : Tick β) : Prop
  /-- The node under the cursor is about to be visited. -/
  | visiting (command : tick.machine.command = .invoke)
      (settled : tick.machine.pending.isEmpty = true)
      (ready : tick.scan.Ready shape tick.machine.cursor)
      (encloses : Encloses shape tick.machine.cursor (tick.machine.cursor + 1) tick.openSpans)
  /-- A status travels up, and what is pending lies behind the cursor. -/
  | rising (command : tick.machine.command = .resume)
      (ends : tick.machine.pending.isEmpty = false →
        tick.machine.pending.stop ≤ tick.machine.cursor)
      (ready : tick.scan.Ready shape tick.machine.cursor)
      (encloses : Encloses shape tick.machine.cursor tick.machine.cursor tick.openSpans)
  /-- Nothing more is visited. -/
  | closing (down : tick.machine.command ≠ .invoke) (up : tick.machine.command ≠ .resume)

/-- The scan has gone on, and nothing ahead has been passed. -/
structure Advances (shape : Shape β) (before after : Tick β) : Prop where
  goesOn : before.scan.GoesOn after.scan
  stage : Stage shape after

/-- The status of a visited action travels up from behind the action. -/
theorem advances_leaf {visited : Tick β} {index : Nat} {result : Status}
    (lingers : tick.Lingers visited) (settled : tick.machine.pending.isEmpty = true)
    (encloses : Encloses setting.shape index (index + 1) tick.openSpans)
    (seeks : Seeks setting.shape (index + 1) tick (visited.deliver setting index result)) :
    Advances setting.shape tick (visited.deliver setting index result) := by
  obtain ⟨goes, ready⟩ := seeks
  have delivered := visited.machine_deliver setting index result
  generalize visited.deliver setting index result = after at goes ready delivered ⊢
  have cursor : after.machine.cursor = index + 1 := by rw [delivered]
  have idle : after.machine.pending.isEmpty = true := by
    rw [delivered]
    exact lingers.settled settled
  have spans : after.openSpans = tick.openSpans := by
    have frames : after.machine.openFrames = tick.machine.openFrames := by
      rw [delivered]
      exact lingers.openFrames
    exact congrArg (List.map Frame.span) frames
  refine ⟨goes, .rising (by rw [delivered]) ?_ (cursor ▸ ready) ?_⟩
  · rw [idle]
    exact Bool.noConfusion
  · rw [cursor, spans]
    exact encloses.pass

/-- A decider that opens hands the visit on to one of the atoms in its span. -/
theorem Opens.advances {index stop : Nat} {frame : Frame} {rule : Rule}
    (opens : tick.Opens frame rule after) (atom : frame.atom = index) (ends : frame.stop = stop)
    (stands : setting.shape.atom? index = some (.decider rule stop))
    (settled : tick.machine.pending.isEmpty = true)
    (encloses : Encloses setting.shape index (index + 1) tick.openSpans)
    (seeks : Seeks setting.shape (index + 1) tick after) :
    Advances setting.shape tick after := by
  subst atom ends
  obtain ⟨behind, inside⟩ : frame.atom < after.machine.cursor ∧
      after.machine.cursor < frame.stop := by
    have first := (setting.shape.has_child stands).1
    rcases opens.starts with same | ⟨-, forward, before, -⟩ <;> omega
  have spans : after.openSpans = tick.openSpans ++ [⟨frame.atom, frame.stop⟩] := by
    have frames := congrArg (List.map Frame.span) opens.frames
    rwa [List.map_append] at frames
  refine ⟨seeks.goesOn, .visiting opens.command (opens.settled settled)
    (seeks.ready.later behind) ?_⟩
  rw [spans]
  exact encloses.opened stands behind inside

/-- An atom is visited with the lookups that are due there, unless an error occurs. -/
theorem retells_visit {index : Nat} {atom : Atom} (settled : tick.machine.pending.isEmpty = true)
    (ready : tick.scan.Ready setting.shape index)
    (encloses : Encloses setting.shape index (index + 1) tick.openSpans)
    (stands : setting.shape.atom? index = some atom) :
    Retells (tick.recordVisit setting index atom) (tick.visitAtom setting index atom)
      fun after noted => Advances setting.shape tick after ∧ (after.machine.command = .error ∨
        noted = Lookup.due setting.shape tick.actor index) := by
  have visits {leaf : Leaf} (acts : atom = leaf.atom) :
      Retells (tick.recordVisit setting index atom) (tick.visitAtom setting index atom)
        fun after noted => Advances setting.shape tick after ∧ (after.machine.command = .error ∨
          noted = Lookup.due setting.shape tick.actor index) := by
    subst acts
    refine ((retells_leaf ready stands).also (tick.lingers_visitAtom setting _ leaf)).mono ?_
    rintro after noted ⟨⟨visited, result, lingers, rfl⟩, seeks, rfl⟩
    exact ⟨advances_leaf lingers settled encloses seeks, .inr rfl⟩
  cases atom with
  | decider rule stop =>
    let frame := tick.frameFor index rule stop
    have opens : (tick.enterDecider setting frame).Ensures fun after =>
        after.machine.command = .error ∨ tick.Opens frame rule after :=
      tick.enterDecider_opens setting rfl ready.remembered
    refine ((retells_entry ready stands).also opens).mono fun after noted told => ?_
    obtain ⟨error | opens, seeks, looked⟩ := told
    · refine ⟨⟨seeks.goesOn, .closing ?_ ?_⟩, .inl error⟩
      all_goals
        rw [error]
        exact Command.noConfusion
    · exact ⟨opens.advances rfl rfl stands settled encloses seeks, looked⟩
  | immediate function => exact visits (show _ = Leaf.atom (.immediate function) from rfl)
  | deferred action resource =>
    exact visits (show _ = Leaf.atom (.deferred action resource) from rfl)
  | persistent slot => exact visits (show _ = Leaf.atom (.persistent slot) from rfl)

/-- The atom under the cursor is visited with the lookups that are due, unless an error occurs. -/
theorem retells_invoke (tick : Tick β) (setting : Setting β)
    (settled : tick.machine.pending.isEmpty = true)
    (ready : tick.scan.Ready setting.shape tick.machine.cursor)
    (encloses : Encloses setting.shape tick.machine.cursor (tick.machine.cursor + 1)
      tick.openSpans) :
    Retells (tick.recordInvoke setting) (tick.invoke setting) fun after noted =>
      Advances setting.shape tick after ∧ (after.machine.command = .error ∨
        noted = Lookup.due setting.shape tick.actor tick.machine.cursor) := by
  unfold recordInvoke Tick.invoke
  simp only
  cases stands : setting.shape.atom? tick.machine.cursor with
  | none =>
    refine retells_pure ⟨⟨.refl _, ?_⟩, .inl rfl⟩
    exact .closing Command.noConfusion Command.noConfusion
  | some atom =>
    have noticed : tick.Lingers (tick.notify setting tick.machine.cursor (.enter ||| .fromTop)) :=
      tick.lingers_notify setting _ _
    have same := tick.scan_notify setting tick.machine.cursor (.enter ||| .fromTop)
    simp only
    generalize tick.notify setting tick.machine.cursor (.enter ||| .fromTop) = entered at *
    have spans : entered.openSpans = tick.openSpans :=
      congrArg (List.map Frame.span) noticed.openFrames
    have goes : tick.scan.GoesOn entered.scan := same ▸ .refl _
    rw [← spans] at encloses
    have visits := retells_visit (noticed.settled settled) (same ▸ ready) encloses stands
    rw [goes.due_eq] at visits
    refine visits.mono fun after noted told => ?_
    obtain ⟨advances, looked⟩ := told
    exact ⟨⟨goes.trans advances.goesOn, advances.stage⟩, looked⟩

/-- The decider that is left hands its status on, or was the root. -/
theorem Closes.advances {outer : List Frame} {middle : Tick β} (closes : Closes outer middle after)
    (same : after.scan = middle.scan)
    (ends : middle.machine.pending.isEmpty = false →
      middle.machine.pending.stop ≤ middle.machine.cursor)
    (ready : middle.scan.Ready setting.shape middle.machine.cursor)
    (encloses : Encloses setting.shape middle.machine.cursor middle.machine.cursor
      (outer.map Frame.span)) :
    Advances setting.shape middle after := by
  have spans : after.openSpans = outer.map Frame.span :=
    congrArg (List.map Frame.span) closes.frames
  have command := closes.command
  refine ⟨same ▸ .refl _, ?_⟩
  rw [Command.afterLeave] at command
  split at command
  · refine .closing ?_ ?_
    all_goals
      rw [command]
      exact Command.noConfusion
  · refine .rising command ?_ ?_ ?_
    · rwa [closes.pending, closes.cursor]
    · rwa [closes.cursor, same]
    · rwa [closes.cursor, spans]

/-- A status goes up to the innermost decider, which ends no earlier than what is pending. -/
theorem advances_resume
    (ends : tick.machine.pending.isEmpty = false →
      tick.machine.pending.stop ≤ tick.machine.cursor)
    (ready : tick.scan.Ready setting.shape tick.machine.cursor)
    (encloses : Encloses setting.shape tick.machine.cursor tick.machine.cursor tick.openSpans) :
    (tick.resume setting).Ensures (Advances setting.shape tick) := by
  unfold Tick.resume
  split
  · exact ensures_ok.mpr ⟨.refl _, .closing Command.noConfusion Command.noConfusion⟩
  · next frame top =>
    obtain ⟨outer, held⟩ : ∃ outer, tick.machine.openFrames = outer ++ [frame] :=
      Buffer.exists_rest top
    have spans : tick.openSpans = outer.map Frame.span ++ [frame.span] := by
      have mapped := congrArg (List.map Frame.span) held
      rwa [List.map_append] at mapped
    have machine := tick.machine_notify setting frame.atom (.enter ||| .fromBottom)
    have same := tick.scan_notify setting frame.atom (.enter ||| .fromBottom)
    generalize tick.notify setting frame.atom (.enter ||| .fromBottom) = entered at machine same ⊢
    rw [← machine] at ends ready encloses held
    rw [← same] at ready
    rw [spans] at encloses
    have inside : entered.machine.cursor ≤ frame.stop := (encloses.around frame.span (by simp)).2
    refine ((entered.machine.absorbs frame).and (entered.scan_absorb frame)).bind
      fun ⟨absorbed, noted⟩ ⟨absorbs, unmoved⟩ => ?_
    -- To take note of a status is no search; only the drain before a next child moves a cursor.
    obtain ⟨forward, behind⟩ := absorbs.ends inside ends
    let moved : Tick β := { entered with machine := noted }
    have unmoved : moved.scan = entered.scan := unmoved
    have searches : moved.scan.Ready setting.shape moved.machine.cursor :=
      unmoved ▸ ready.later forward
    have still : moved.machine.openFrames = outer ++ [frame] :=
      (congrArg (fun frames => frames.contents.toList) absorbs.frames).trans held
    have goes : tick.scan.GoesOn moved.scan := by
      rw [unmoved, same]
      exact .refl _
    suffices advances : (if absorbed.stop ≤ moved.machine.cursor then
        moved.leaveDecider setting absorbed tick.machine.status
        else moved.nextChild setting absorbed).Ensures (Advances setting.shape moved) from
      advances.mono fun after on => ⟨goes.trans on.goesOn, on.stage⟩
    split
    · next ended =>
      have at_stop : moved.machine.cursor = frame.stop := absorbs.cursor_of_ended inside ended
      have around : Encloses setting.shape moved.machine.cursor moved.machine.cursor
          (outer.map Frame.span) := by
        rw [at_stop]
        exact encloses.leave
      refine ((moved.leaveDecider_closes setting still _).and
        (moved.scan_leaveDecider setting absorbed _)).mono fun after left => ?_
      exact left.1.advances left.2 behind searches around
    · next more =>
      obtain ⟨stays, before⟩ : moved.machine.cursor = entered.machine.cursor ∧
          entered.machine.cursor < frame.stop := absorbs.cursor_of_goesOn more
      refine ((moved.nextChild_goesOn setting still).and
        (seeks_nextChild searches behind absorbed)).mono fun after ⟨goesOn, seeks⟩ => ?_
      have spans : after.openSpans = outer.map Frame.span ++ [frame.span] := by
        have frames := congrArg (List.map Frame.span) goesOn.frames
        rw [List.map_append, List.map_singleton, absorbs.span] at frames
        exact frames
      refine ⟨seeks.goesOn, .visiting goesOn.command goesOn.settled ?_ ?_⟩
      · rw [goesOn.cursor]
        exact seeks.ready
      · rw [goesOn.cursor, stays, spans]
        exact encloses.goOn before

/-- The clean-up visits nothing more. -/
theorem advances_cleanup (tick : Tick β) (setting : Setting β) :
    (tick.cleanup setting).Ensures (Advances setting.shape tick) := by
  refine (tick.goesOn_drain setting).bind fun drained goes => ?_
  refine drained.scan_reorder.bind fun ordered same => (ensures_true _).bind fun _ _ => ?_
  refine ensures_pure.mpr ⟨?_, .closing Command.noConfusion Command.noConfusion⟩
  rwa [scan_proceed, same]

namespace Stage

/-- An event does not change how an update stands. -/
theorem emit {shape : Shape β} (stage : Stage shape tick) (event : Event β) :
    Stage shape (tick.emit event) := by
  cases stage with
  | visiting command settled ready encloses => exact .visiting command settled ready encloses
  | rising command ends ready encloses => exact .rising command ends ready encloses
  | closing down up => exact .closing down up

/-- Each step takes the lookups that are due at the node that it visits, unless an error occurs. -/
theorem retells_step (stage : Stage setting.shape tick) :
    Retells (tick.recordStep setting) (tick.step setting) fun after noted =>
      Advances setting.shape tick after ∧ (after.machine.command = .error ∨
        noted = tick.upcoming.flatMap (Lookup.due setting.shape tick.actor)) := by
  obtain ⟨started, logged⟩ : ∃ started, started = tick.log (.stepStarted tick.machine.command
      tick.machine.cursor tick.machine.status) := ⟨_, rfl⟩
  have begun : Stage setting.shape started := logged ▸ stage.emit _
  suffices steps : Retells (tick.recordStep setting) (tick.step setting) fun after noted =>
      Advances setting.shape started after ∧ (after.machine.command = .error ∨
        noted = started.upcoming.flatMap (Lookup.due setting.shape started.actor)) by
    rw [logged] at steps
    refine steps.mono fun after noted told => ?_
    obtain ⟨advances, looked⟩ := told
    exact ⟨⟨advances.goesOn, advances.stage⟩, looked⟩
  have machine : tick.machine = started.machine := by
    rw [logged]
    rfl
  unfold recordStep Tick.step
  simp only [← logged]
  rw [machine]
  have silent {outcome : Checked (Tick β)} (mute : started.machine.command ≠ .invoke)
      (ensures : outcome.Ensures (Advances setting.shape started)) :
      Retells (liftM outcome) outcome fun after noted =>
        Advances setting.shape started after ∧ (after.machine.command = .error ∨
          noted = started.upcoming.flatMap (Lookup.due setting.shape started.actor)) := by
    refine (retells_lift ensures).mono ?_
    rintro after _ ⟨advances, rfl⟩
    rw [upcoming, if_neg mute]
    exact ⟨advances, .inr rfl⟩
  cases begun with
  | visiting command settled ready encloses =>
    rw [command]
    refine (started.retells_invoke setting settled ready encloses).mono fun after noted told => ?_
    rw [upcoming, if_pos command, List.flatMap_singleton]
    exact told
  | rising command ends ready encloses =>
    have mute : started.machine.command ≠ .invoke := by
      rw [command]
      exact Command.noConfusion
    rw [command]
    exact silent mute (advances_resume ends ready encloses)
  | closing down up =>
    cases command : started.machine.command with
    | invoke => exact absurd command down
    | resume => exact absurd command up
    | cleanup => exact silent down (started.advances_cleanup setting)
    | done | error =>
      exact silent down (ensures_pure.mpr ⟨.refl _, .closing down up⟩)

/-- Nothing is passed while an update takes its steps. -/
theorem advances (stage : Stage setting.shape tick) {count : Nat}
    (steps : Steps setting count tick after) : Advances setting.shape tick after := by
  induction steps with
  | refl => exact ⟨.refl _, stage⟩
  | cons _ first _ ih =>
    obtain ⟨_, ⟨on, _⟩, _⟩ := stage.retells_step _ first
    have rest := ih on.stage
    exact ⟨on.goesOn.trans rest.goesOn, rest.stage⟩

/-- Recorded steps that come to their end take the lookups that are due at the nodes that they
visit. -/
theorem recordRun_eq (stage : Stage setting.shape tick) {count budget : Nat}
    (steps : Steps setting count tick after) (done : after.machine.command = .done)
    (enough : count ≤ budget) :
    ∃ visited, after.visited = tick.visited ++ visited ∧ ∀ record,
      recordRun setting budget tick record =
        .ok (after, record ++ visited.flatMap (Lookup.due setting.shape tick.actor)) := by
  induction steps generalizing budget with
  | refl tick =>
    have ends : tick.machine.command.isTerminal = true := by
      rw [done]
      rfl
    refine ⟨[], (List.append_nil _).symm, fun record => ?_⟩
    cases budget <;>
    · rw [recordRun, if_pos ends, List.flatMap_nil, List.append_nil]
      rfl
  | @cons count tick middle after active first rest ih =>
    obtain ⟨noted, ⟨on, looked⟩, recorded⟩ := stage.retells_step _ first
    have errorless : middle.machine.command ≠ .error := by
      -- No step follows an error, and the steps come to their end without one.
      intro error
      cases rest with
      | refl => cases done.symm.trans error
      | cons active =>
        rw [error] at active
        cases active
    cases budget with
    | zero => omega
    | succ budget =>
      obtain ⟨visited, shown, ran⟩ := ih on.stage done (Nat.le_of_succ_le_succ enough)
      refine ⟨tick.upcoming ++ visited, ?_, fun record => ?_⟩
      · rw [shown, visited_step first, List.append_assoc]
      · have went : (tick.recordStep setting record >>= fun reached =>
            recordRun setting budget reached.1 reached.2) =
              .ok (after, record ++
                (tick.upcoming ++ visited).flatMap (Lookup.due setting.shape tick.actor)) := by
          rw [recorded, ok_bind, ran, on.goesOn.due_eq, looked.resolve_left errorless,
            List.flatMap_append, List.append_assoc]
        rw [recordRun, if_neg (by rw [active]; exact Bool.false_ne_true)]
        exact went

end Stage

end Tick

namespace Sample

/-- A dynamic priority of three actions, and a sequence behind it. -/
def choice : Shape Nat where
  atoms := #[.decider .concurrent 8, .decider .dynamicPriority 5, .persistent 0, .deferred 7 3,
    .persistent 1, .decider .sequence 8, .immediate 0, .persistent 2]
  functions := #[action]
  survey := ⟨[8, 8], #[2, 4, 7], 1, 5, 2, 1⟩
  accepted := by decide

/-- The priority now chooses its first action, so that the others are given up; the sequence goes on
with its second. -/
def choosing : Tick Nat where
  machine := .forShape choice
  actor := { Actor.forShape 5 choice with
    slots := #[.success, .running, .running]
    continuations := ⟨#[⟨5, 7⟩], #[]⟩
    outstanding := ⟨#[⟨3, .running⟩, ⟨4, .running⟩, ⟨7, .running⟩], #[⟨0, .fail⟩, ⟨0, .fail⟩]⟩ }
  board := 0

theorem fit_choosing : choosing.Fit ⟨choice, .zero, false⟩ where
  sized := Machine.sized_new _
  covers := by decide
  supports := by decide
  ascending := by decide
  undecided := by decide

end Sample

namespace Tick

/-- Every lookup of an update finds what a search of the whole array finds: the lookups are those
that are due at the visited nodes, one after the other. All the while the actor's arrays stay as
they are, and no cursor ever moves back. -/
theorem update_looksUp {β : Type} (tick : Tick β) (setting : Setting β) (fit : tick.Fit setting) :
    (∃ result after visited, tick.update setting = .ok ⟨.ok result, after⟩ ∧
      after.visited = tick.visited ++ visited ∧
      tick.recordUpdate setting [] =
        .ok (⟨.ok result, after⟩, visited.flatMap (Lookup.due setting.shape tick.actor))) ∧
    ∀ machine, tick.machine.prepareUpdate tick.actor setting.shape = .ok machine →
      ∀ count more before after, Steps setting count { tick with machine } before →
        Steps setting more before after → before.scan.GoesOn after.scan := by
  obtain ⟨outstanding, continuations⟩ := (tick.actor.isAscending_iff.mp fit.ascending).symm
  have begins (machine : Machine)
      (prepares : tick.machine.prepareUpdate tick.actor setting.shape = .ok machine) :
      Stage setting.shape { tick with machine } := by
    obtain rfl := Machine.eq_of_prepareUpdate prepares
    have closed : ({ tick with machine := { tick.machine.reset with command := .invoke } } :
        Tick β).openSpans = [] :=
      congrArg (List.map Frame.span) (tick.machine.openFrames_reset .invoke)
    refine .visiting rfl rfl ⟨outstanding, continuations, .zero _ _, .zero _ _, .zero _ _⟩ ?_
    rw [closed]
    exact .nil
  constructor
  · obtain ⟨after, completes, -⟩ := fit.update_performs
    have updated := completes.complete_eq
    obtain ⟨machine, count, left, prepares, enough, steps, done, finishes⟩ := completes
    obtain ⟨visited, shown, ran⟩ := (begins machine prepares).recordRun_eq steps done enough
    refine ⟨_, after, visited, updated, ?_, ?_⟩
    · have quiet : left.Quiet after := quiet_finish left setting _ finishes
      rw [Tick.visited, quiet]
      exact shown
    · unfold recordUpdate
      rw [prepares]
      show (recordRun setting (stepBudget setting.shape) { tick with machine } [] >>= fun reached =>
        reached.1.finish setting >>= fun outcome => .ok (outcome, reached.2)) = _
      rw [ran, ok_bind, finishes, ok_bind]
      rfl
  · intro machine prepares count more before after first second
    exact (((begins machine prepares).advances first).stage.advances second).goesOn

/-- The drain behind the choice passes two outstanding actions, and the skipped children leave their
entries and slots behind; what is looked up after them is still found. -/
theorem update_looksUp_sample : Sample.choosing.Fit ⟨Sample.choice, .zero, false⟩ ∧
    (∃ after, Sample.choosing.update ⟨Sample.choice, .zero, false⟩ = .ok ⟨.ok .running, after⟩ ∧
      after.visited = [0, 1, 2, 5, 7] ∧
      Sample.choosing.recordUpdate ⟨Sample.choice, .zero, false⟩ [] =
        .ok (⟨.ok .running, after⟩, [.outstanding 2 none, .slot 2 (some 0),
          .continuation 5 (some 7), .outstanding 7 (some .running), .slot 7 (some 2)])) ∧
    ∃ machine count left,
      Sample.choosing.machine.prepareUpdate Sample.choosing.actor Sample.choice = .ok machine ∧
      Steps ⟨Sample.choice, .zero, false⟩ count { Sample.choosing with machine } left ∧
      left.machine.command = .done ∧
      ({ Sample.choosing with machine } : Tick Nat).scan.GoesOn left.scan := by
  obtain ⟨⟨result, after, visited, updated, shown, recorded⟩, grows⟩ :=
    update_looksUp Sample.choosing ⟨Sample.choice, .zero, false⟩ Sample.fit_choosing
  have outcome : (Sample.choosing.update ⟨Sample.choice, .zero, false⟩).map (fun outcome =>
      (outcome.answer, outcome.tick.visited)) = .ok (.ok .running, [0, 1, 2, 5, 7]) := by cbv
  rw [updated] at outcome
  obtain ⟨answer, nodes⟩ := Prod.mk.inj (Except.ok.inj outcome)
  obtain rfl := Except.ok.inj answer
  have from_start : after.visited = visited := shown
  have due : [0, 1, 2, 5, 7].flatMap (Lookup.due Sample.choice Sample.choosing.actor) =
      [.outstanding 2 none, .slot 2 (some 0), .continuation 5 (some 7),
        .outstanding 7 (some .running), .slot 7 (some 2)] := by
    decide +kernel
  rw [← from_start, nodes, due] at recorded
  obtain ⟨-, ⟨machine, count, left, prepares, -, steps, done, -⟩, -⟩ :=
    Sample.fit_choosing.update_performs
  exact ⟨Sample.fit_choosing, ⟨after, updated, nodes, recorded⟩, machine, count, left, prepares,
    steps, done, grows machine prepares 0 count _ left (.refl _) steps⟩

end Tick

end BehaviorTree
