import BehaviorTree.Proofs.Simulation.Lingering
import BehaviorTree.Proofs.Simulation.Story
import BehaviorTree.Proofs.Tick.Safety

namespace BehaviorTree
open Checked
variable {β : Type} {shape : Shape β}

/-- The open deciders are those around a node, each on the way to the child that holds it. -/
structure Surrounds (shape : Shape β) (told : List Happening) (frames : List Frame) (node : Nat) :
    Prop where
  inside : node < shape.size
  around : frames.map Frame.atom = shape.around node
  reached : ∀ frame ∈ frames, ∀ reached, frame.progress = .sequence reached →
    shape.IsChild frame.atom frame.stop reached ∧ reached ≤ node ∧ node < shape.stopAt reached
  running : ∀ frame ∈ frames, ∀ aggregate, frame.progress = .concurrent aggregate →
    (aggregate = .running ↔ frame.HasActive shape told)

/-- Frames of deciders, each of which lies within the ones before it. -/
structure Nests (shape : Shape β) (frames : List Frame) : Prop where
  stands : ∀ frame ∈ frames,
    shape.atom? frame.atom = some (.decider frame.progress.rule frame.stop)
  nested : frames.Pairwise fun outer inner =>
    outer.atom < inner.atom ∧ inner.stop ≤ outer.stop

/-- How a machine stands after what has happened in a traversal. -/
structure Machine.Placed (shape : Shape β) (told : List Happening) (machine : Machine) : Prop where
  errorless : machine.command ≠ .error
  nests : Nests shape machine.openFrames
  marked : Marked machine.openFrames machine.continuations.count machine.requests.launchCount
  /-- A node is visited with nothing pending, and with the deciders around it open. -/
  visits : machine.command = .invoke →
    machine.pending.isEmpty = true ∧ Surrounds shape told machine.openFrames machine.cursor
  /-- What happened last is that a child of the innermost decider was left. The cursor has come to
  its end, and nothing is pending but what lies within it. -/
  rises : machine.command = .resume → ∃ before child,
    told = before ++ [.left child machine.status] ∧ machine.cursor = shape.stopAt child ∧
      Surrounds shape before machine.openFrames child ∧
      (∀ frame ∈ machine.openFrames.getLast?, shape.IsChild frame.atom frame.stop child) ∧
      machine.pending.Within child machine.cursor
  /-- What happened last is that the root was left. -/
  cleans : machine.command = .cleanup → machine.openFrames = [] ∧
    (∃ before, told = before ++ [.left 0 machine.status]) ∧ machine.pending.Within 0 shape.size
  ends : machine.command = .done → machine.openFrames = [] ∧ machine.pending.isEmpty = true

namespace Descends
variable {told : List Happening} {frames : List Frame} {node : Nat}

theorem surrounds (descends : Descends shape told frames node) :
    Surrounds shape told frames node :=
  ⟨descends.lt_size, descends.around_eq, descends.reached, descends.running_iff⟩

theorem nests (descends : Descends shape told frames node) : Nests shape frames :=
  ⟨descends.stands, descends.nested⟩

theorem isChild_last (descends : Descends shape told frames node) :
    ∀ frame ∈ frames.getLast?, shape.IsChild frame.atom frame.stop node := by
  cases descends with
  | root => exact fun _ none => nomatch none
  | child around leads =>
    intro frame last
    rw [List.getLast?_concat] at last
    obtain rfl := Option.some.inj last
    exact leads.isChild

end Descends

theorem Nests.nil (shape : Shape β) : Nests shape [] :=
  ⟨fun _ member => (List.not_mem_nil member).elim, .nil⟩

/-- Whatever has been left lies before the cursor. -/
def Passed (told : List Happening) (cursor : Nat) : Prop :=
  ∀ atom status, .left atom status ∈ told → atom < cursor

theorem Passed.mono {told other : List Happening} {cursor next : Nat} (passed : Passed told cursor)
    (forward : cursor ≤ next)
    (more : ∀ atom status, .left atom status ∈ other → .left atom status ∈ told ∨ atom < next) :
    Passed other next := by
  intro atom status left
  rcases more atom status left with earlier | now
  · exact Nat.lt_of_lt_of_le (passed atom status earlier) forward
  · exact now

namespace Tick
variable {origin tick after : Tick β} {setting : Setting β} {told : List Happening}

/-- What holds until the root is left: no mark exceeds what is counted, whatever has been left lies
behind, and the actor remembers of sequences what it did at first. -/
structure Underway (origin : Tick β) (told : List Happening) (tick : Tick β) : Prop where
  marked : Marked tick.machine.openFrames tick.machine.continuations.count
    tick.machine.requests.launchCount
  passed : Passed told tick.machine.cursor
  remembered : tick.actor.continuations = origin.actor.continuations

/-- Where a traversal that has begun with a tick stands. -/
inductive Stance (setting : Setting β) (origin : Tick β) (told : List Happening) (tick : Tick β) :
    Prop where
  /-- A node is about to be visited, and nothing is pending. -/
  | visiting (command : tick.machine.command = .invoke) (underway : Underway origin told tick)
      (descends : Descends setting.shape told tick.machine.openFrames tick.machine.cursor)
      (settled : tick.machine.pending.isEmpty = true)
  /-- A node has been left, and its status travels up. -/
  | rising {before : List Happening} {child : Nat} (command : tick.machine.command = .resume)
      (underway : Underway origin told tick)
      (left : told = before ++ [.left child tick.machine.status])
      (cursor : tick.machine.cursor = setting.shape.stopAt child)
      (descends : Descends setting.shape before tick.machine.openFrames child)
      (pending : tick.machine.pending.Within child tick.machine.cursor)
  /-- The root has been left. -/
  | cleaning {before : List Happening} (command : tick.machine.command = .cleanup)
      (left : told = before ++ [.left 0 tick.machine.status])
      (closed : tick.machine.openFrames = [])
      (pending : tick.machine.pending.Within 0 setting.shape.size)
  | done (command : tick.machine.command = .done) (closed : tick.machine.openFrames = [])
      (settled : tick.machine.pending.isEmpty = true)

theorem Stance.placed (stance : Stance setting origin told tick) :
    tick.machine.Placed setting.shape told := by
  cases stance with
  | visiting command underway descends settled =>
    refine ⟨?_, descends.nests, underway.marked, fun _ => ⟨settled, descends.surrounds⟩, ?_, ?_, ?_⟩
    all_goals
      rw [command]
      exact Command.noConfusion
  | @rising before child command underway left cursor descends pending =>
    refine ⟨?_, descends.nests, underway.marked, ?_, fun _ => ⟨before, child, left, cursor,
      descends.surrounds, descends.isChild_last, pending⟩, ?_, ?_⟩
    all_goals
      rw [command]
      exact Command.noConfusion
  | @cleaning before command left closed pending =>
    refine ⟨?_, closed ▸ Nests.nil _, closed ▸ Marked.nil _ _, ?_, ?_,
      fun _ => ⟨closed, ⟨before, left⟩, pending⟩, ?_⟩
    all_goals
      rw [command]
      exact Command.noConfusion
  | done command closed settled =>
    refine ⟨?_, closed ▸ Nests.nil _, closed ▸ Marked.nil _ _, ?_, ?_, ?_,
      fun _ => ⟨closed, settled⟩⟩
    all_goals
      rw [command]
      exact Command.noConfusion

/-- The story goes on, and the traversal stands where it has come to. -/
def Proceeds (setting : Setting β) (origin : Tick β) (told : List Happening)
    (before after : Tick β) : Prop :=
  ∃ more, after.story = before.story ++ more ∧ Stance setting origin (told ++ more) after

theorem Proceeds.quietly (quiet : tick.Quiet after) (stance : Stance setting origin told after) :
    Proceeds setting origin told tick after :=
  ⟨[], by rw [quiet, List.append_nil], by rwa [List.append_nil]⟩

/-- What an action delivers is on its way up. -/
theorem machine_deliver (tick : Tick β) (setting : Setting β) (atom : Nat) (result : Status) :
    (tick.deliver setting atom result).machine =
      { tick.machine with status := result, cursor := atom + 1, command := .resume } := by
  simp only [deliver, proceed, machine_notify]
  rfl

theorem remembered_deliver (tick : Tick β) (setting : Setting β) (atom : Nat) (result : Status) :
    (tick.deliver setting atom result).actor.continuations = tick.actor.continuations := by
  simp only [deliver, proceed, (lingers_notify _ setting atom (.leave ||| .fromBottom)).remembered]
  rfl

/-- The innermost decider takes note of a status, and then is left or goes on. -/
def Moves (outer : List Frame) (frame : Frame) (before after : Tick β) : Prop :=
  ∃ noted absorbed, before.machine.Notes frame (absorbed, noted.machine) ∧
    noted.actor.continuations = before.actor.continuations ∧
    if absorbed.stop ≤ noted.machine.cursor then Closes outer noted after
    else GoesOn (outer ++ [absorbed]) noted after

section
variable (step : tick.step setting = .ok after)
include step

/-- An action that is visited is left at once. -/
theorem proceeds_visit (command : tick.machine.command = .invoke)
    (underway : Underway origin told tick)
    (descends : Descends setting.shape told tick.machine.openFrames tick.machine.cursor)
    (settled : tick.machine.pending.isEmpty = true) {leaf : Leaf}
    (stands : setting.shape.atom? tick.machine.cursor = some leaf.atom) :
    Proceeds setting origin told tick after := by
  have shown := story_visit step command stands
  let started := tick.log (.stepStarted .invoke tick.machine.cursor tick.machine.status)
  simp only [Tick.step, command, Tick.invoke, log, emit, stands] at step
  obtain ⟨visited, result, visits, rfl⟩ := lingers_visitAtom _ setting _ leaf after step
  have lingers : tick.Lingers visited :=
    ((tick.lingers_log _).trans (started.lingers_notify setting _ _)).trans visits
  have delivered := visited.machine_deliver setting tick.machine.cursor result
  have passes := visited.remembered_deliver setting tick.machine.cursor result
  generalize visited.deliver setting tick.machine.cursor result = after at shown delivered passes
  have command : after.machine.command = .resume := by rw [delivered]
  have cursor : after.machine.cursor = tick.machine.cursor + 1 := by rw [delivered]
  have frames : after.machine.openFrames = tick.machine.openFrames := by
    rw [delivered]
    exact lingers.openFrames
  have pending : after.machine.pending.isEmpty = true := by
    rw [delivered]
    exact lingers.settled settled
  have continuations : after.machine.continuations = tick.machine.continuations := by
    rw [delivered]
    exact lingers.continuations
  have launches : tick.machine.requests.launchCount ≤ after.machine.requests.launchCount := by
    rw [delivered]
    exact lingers.launches
  have ends : setting.shape.stopAt tick.machine.cursor = tick.machine.cursor + 1 := by
    rw [Shape.stopAt, stands]
    cases leaf <;> rfl
  have left : told ++ [.entered tick.machine.cursor,
      .left tick.machine.cursor after.machine.status] =
        (told ++ [.entered tick.machine.cursor]) ++
          [.left tick.machine.cursor after.machine.status] := by
    rw [List.append_assoc]
    rfl
  refine ⟨_, shown, .rising command ⟨?_, ?_, passes.trans ?_⟩ left ?_ ?_ (.inl pending)⟩
  · rw [frames, continuations]
    exact underway.marked.grow (Nat.le_refl _) launches
  · rw [cursor]
    refine underway.passed.mono (Nat.le_succ _) fun atom status member => ?_
    simp only [List.mem_append, List.mem_cons, reduceCtorEq, Happening.left.injEq, List.not_mem_nil,
      or_false, false_or] at member
    exact member.imp_right fun now => by omega
  · exact lingers.remembered.trans underway.remembered
  · rw [cursor, ends]
  · rw [frames]
    exact descends.retell fun child status _ => by simp

/-- A decider that is entered is around the node to visit next. -/
theorem proceeds_enter (command : tick.machine.command = .invoke)
    (errorless : after.machine.command ≠ .error)
    (direct : (origin.scene setting).Direct)
    (ready : Ascending origin.actor.continuations.entries.toList)
    (underway : Underway origin told tick)
    (descends : Descends setting.shape told tick.machine.openFrames tick.machine.cursor)
    (settled : tick.machine.pending.isEmpty = true) {rule : Rule} {stop : Nat}
    (stands : setting.shape.atom? tick.machine.cursor = some (.decider rule stop)) :
    Proceeds setting origin told tick after := by
  have shown := story_enter step command stands
  let started := tick.log (.stepStarted .invoke tick.machine.cursor tick.machine.status)
  let noticed := started.notify setting tick.machine.cursor (.enter ||| .fromTop)
  have lingers : tick.Lingers noticed :=
    (tick.lingers_log _).trans (started.lingers_notify setting _ _)
  let frame := noticed.frameFor tick.machine.cursor rule stop
  have remembered : noticed.actor.continuations = origin.actor.continuations :=
    lingers.remembered.trans underway.remembered
  simp only [Tick.step, command, Tick.invoke, log, emit, stands, visitAtom] at step
  have opens : after.machine.command = .error ∨ noticed.Opens frame rule after :=
    noticed.enterDecider_opens setting rfl (remembered ▸ ready) after step
  obtain ⟨command, frames, starts, settles, continuations, launches, keeps⟩ :=
    opens.resolve_left errorless
  have isChild : setting.shape.IsChild tick.machine.cursor stop after.machine.cursor := by
    rcases starts with first | ⟨rfl, behind, before, found⟩
    · rw [first]
      exact .first (setting.shape.has_child stands).1
    · rw [remembered] at found
      exact direct _ _ stands _ found behind before
  have passed : Passed (told ++ [.entered tick.machine.cursor]) after.machine.cursor := by
    refine underway.passed.mono (Nat.le_of_lt isChild.within.1) fun atom status member => .inl ?_
    simpa using member
  rw [lingers.openFrames] at frames
  have marked : Marked tick.machine.openFrames frame.continuationMark frame.launchMark :=
    underway.marked.grow (Nat.le_of_eq (congrArg Buffer.count lingers.continuations.symm))
      lingers.launches
  refine ⟨_, shown, .visiting command ⟨?_, passed, keeps.trans remembered⟩ ?_
    (settles (lingers.settled settled))⟩
  · rw [frames, continuations]
    exact (marked.opened.moved _).grow (Nat.le_refl _) launches
  · rw [frames]
    have around : Descends setting.shape (told ++ [.entered tick.machine.cursor])
        tick.machine.openFrames frame.atom := descends.retell fun child status _ => by simp
    refine around.enter stands isChild fun atom status member => ?_
    exact Nat.le_of_lt (underway.passed atom status (by simpa using member))

/-- In a step on the way up the innermost decider moves. -/
theorem step_moves (command : tick.machine.command = .resume) {outer : List Frame} {frame : Frame}
    (held : tick.machine.openFrames = outer ++ [frame]) : Moves outer frame tick after := by
  let started := tick.log (.stepStarted .resume tick.machine.cursor tick.machine.status)
  let noticed := started.notify setting frame.atom (.enter ||| .fromBottom)
  have same : noticed.machine = tick.machine := started.machine_notify setting frame.atom _
  have top : started.machine.frames.top? = some frame := Buffer.top?_last held
  have remembered := (started.lingers_notify setting frame.atom (.enter ||| .fromBottom)).remembered
  have resumes : (started.resume setting).Ensures (Moves outer frame tick) := by
    simp only [Tick.resume, top]
    refine (noticed.machine.absorb_notes frame).bind fun pair notes => ?_
    obtain ⟨absorbed, machine⟩ := pair
    rw [same] at notes
    let noted : Tick β := { noticed with machine }
    have still : noted.machine.openFrames = outer ++ [frame] := by
      rw [← held]
      cases notes <;> rfl
    simp only
    split
    · next finished =>
      refine (noted.leaveDecider_closes setting still _).mono fun after closes => ?_
      exact ⟨noted, absorbed, notes, remembered, by rwa [if_pos finished]⟩
    · next more =>
      refine (noted.nextChild_goesOn setting still).mono fun after goes => ?_
      exact ⟨noted, absorbed, notes, remembered, by rwa [if_neg more]⟩
  simp only [Tick.step, command] at step
  exact resumes after step

omit step in
/-- A decider that is left hands its status on, or was the root. -/
theorem Closes.stance {outer : List Frame} {decider stop : Nat} {rule : Rule}
    (closes : Closes outer tick after) (around : Descends setting.shape told outer decider)
    (stands : setting.shape.atom? decider = some (.decider rule stop))
    (cursor : tick.machine.cursor = stop) (pending : tick.machine.pending.Within decider stop)
    (marked : Marked outer tick.machine.continuations.count tick.machine.requests.launchCount)
    (passed : Passed told tick.machine.cursor)
    (remembered : tick.actor.continuations = origin.actor.continuations) :
    Stance setting origin (told ++ [.left decider after.machine.status]) after := by
  obtain ⟨command, frames, same_cursor, same_pending, continuations, launches, keeps⟩ := closes
  rw [Command.afterLeave] at command
  split at command
  · next none =>
    subst none
    obtain rfl := around.eq_zero
    refine .cleaning command rfl frames ?_
    rw [same_pending]
    exact pending.mono (Nat.zero_le 0) (setting.shape.has_child stands).2
  · refine .rising command ⟨?_, ?_, keeps.trans remembered⟩ rfl ?_ ?_ ?_
    · rwa [frames, continuations, launches]
    · rw [same_cursor]
      refine passed.mono (Nat.le_refl _) fun atom status member => ?_
      simp only [List.mem_append, List.mem_singleton, Happening.left.injEq] at member
      have inside := (setting.shape.has_child stands).1
      exact member.imp_right fun now => by omega
    · rw [same_cursor, cursor, Shape.stopAt_decider stands]
    · rwa [frames]
    · rwa [same_pending, same_cursor, cursor]

/-- The innermost decider goes on behind the child that has been left, or is left itself. -/
theorem proceeds_resume (command : tick.machine.command = .resume)
    (underway : Underway origin told tick) {before : List Happening} {child : Nat}
    (left : told = before ++ [.left child tick.machine.status])
    (cursor : tick.machine.cursor = setting.shape.stopAt child)
    (pending : tick.machine.pending.Within child tick.machine.cursor)
    {outer : List Frame} {frame : Frame} (held : tick.machine.openFrames = outer ++ [frame])
    (descends : Descends setting.shape before (outer ++ [frame]) child) :
    Proceeds setting origin told tick after := by
  obtain ⟨marked, passed, remembered⟩ := underway
  rw [held] at marked
  have shown := story_resume step command (Buffer.top?_last held)
  have around : Descends setting.shape told outer frame.atom :=
    left ▸ descends.left tick.machine.status
  obtain ⟨stands, isChild, -⟩ := descends.last.2
  have inside : tick.machine.cursor ≤ frame.stop := cursor ▸ isChild.stopAt_le_stop stands
  have behind : frame.atom ≤ tick.machine.cursor :=
    cursor ▸ Nat.le_of_lt (Nat.lt_trans isChild.within.1 (setting.shape.lt_stopAt child))
  have lies : tick.machine.pending.Within frame.atom frame.stop :=
    pending.mono (Nat.le_of_lt isChild.within.1) inside
  obtain ⟨noted, absorbed, notes, keeps, moves⟩ := step_moves step command held
  have leaves (closes : Closes outer noted after) (ends : tick.machine.Ends frame noted.machine) :
      Proceeds setting origin told tick after := by
    have ascends : after.machine.command ≠ .invoke := by
      rw [closes.command, Command.afterLeave]
      split <;> exact Command.noConfusion
    rw [if_neg ascends] at shown
    have covered : noted.machine.pending.Within frame.atom frame.stop := by
      rcases ends.pending with same | ⟨start, rfl | rfl, widened⟩
      · rwa [same]
      · rw [widened]
        exact lies.cover behind (Nat.le_refl _)
      · rw [widened]
        exact lies.cover (Nat.le_refl _) (Nat.le_refl _)
    refine ⟨_, shown, closes.stance around stands ends.cursor covered
      (marked.dropped ends.recorded ends.launched) ?_ (keeps.trans remembered)⟩
    exact passed.mono (ends.cursor ▸ inside) fun _ _ member => .inl member
  rcases notes.goesOn_or_ends with ⟨progress, heeds, pair⟩ | ⟨rfl, ends⟩
  · obtain ⟨rfl, same⟩ := Prod.mk.inj pair
    split at moves
    · next finished =>
      -- The child that was left is the last one.
      rw [same] at finished
      refine leaves moves ?_
      rw [same]
      exact ⟨Nat.le_antisymm inside finished, rfl, .inl rfl, Nat.min_le_right _ _,
        Nat.min_le_right _ _⟩
    · next more =>
      obtain ⟨command, frames, settled, same_cursor, continuations, launches, kept⟩ := moves
      rw [same] at more same_cursor continuations launches
      rw [if_pos command] at shown
      refine ⟨_, shown, .visiting command ⟨?_, ?_, kept.trans (keeps.trans remembered)⟩ ?_
        settled⟩
      · rw [frames, continuations]
        exact (marked.moved progress).grow (Nat.le_refl _) launches
      · rwa [List.append_nil, same_cursor]
      · rw [List.append_nil, left, frames, same_cursor, cursor]
        rw [cursor] at heeds more
        exact descends.next heeds (Nat.not_le.mp more)
  · rw [if_pos (Nat.le_of_eq ends.cursor.symm)] at moves
    exact leaves moves ends

/-- Where no decider is open, the clean-up follows. -/
theorem proceeds_closed (command : tick.machine.command = .resume) {before : List Happening}
    (left : told = before ++ [.left 0 tick.machine.status])
    (pending : tick.machine.pending.Within 0 setting.shape.size)
    (closed : tick.machine.openFrames = []) : Proceeds setting origin told tick after := by
  have top := Buffer.top?_empty closed
  refine .quietly (quiet_closed step command top) ?_
  simp only [Tick.step, command, Tick.resume, log, emit, top] at step
  obtain rfl := Except.ok.inj step
  exact .cleaning rfl left closed pending

/-- One step leads from one stance to another, as the story tells. -/
theorem Stance.proceeds (stance : Stance setting origin told tick)
    (errorless : after.machine.command ≠ .error) (direct : (origin.scene setting).Direct)
    (ready : Ascending origin.actor.continuations.entries.toList) :
    Proceeds setting origin told tick after := by
  cases stance with
  | visiting command underway descends settled =>
    obtain ⟨atom, stands⟩ :=
      Option.isSome_iff_exists.mp ((setting.shape.atom?_isSome_iff _).mpr descends.lt_size)
    have visits {leaf : Leaf} (same : atom = leaf.atom) : Proceeds setting origin told tick after :=
      proceeds_visit step command underway descends settled (same ▸ stands)
    cases atom with
    | decider rule stop =>
      exact proceeds_enter step command errorless direct ready underway descends settled stands
    | immediate function => exact visits (show _ = Leaf.atom (.immediate function) from rfl)
    | deferred action resource =>
      exact visits (show _ = Leaf.atom (.deferred action resource) from rfl)
    | persistent slot => exact visits (show _ = Leaf.atom (.persistent slot) from rfl)
  | @rising before child command underway left cursor descends pending =>
    rcases List.eq_nil_or_concat' tick.machine.openFrames with closed | ⟨outer, frame, held⟩
    · rw [closed] at descends
      obtain rfl := descends.eq_zero
      refine proceeds_closed step command left (pending.mono (Nat.le_refl 0) ?_) closed
      rw [cursor]
      exact setting.shape.stopAt_le_size descends.lt_size
    · rw [held] at descends
      exact proceeds_resume step command underway left cursor pending held descends
  | cleaning command left closed pending =>
    refine .quietly (quiet_cleanup step command) ?_
    simp only [Tick.step, command] at step
    let started := tick.log (.stepStarted .cleanup tick.machine.cursor tick.machine.status)
    obtain ⟨done, still, settled⟩ := started.cleanup_settles setting closed after step
    exact .done done still settled
  | done command closed settled =>
    simp only [Tick.step, command] at step
    obtain rfl := Except.ok.inj step
    exact .quietly (quiet_emit rfl) (.done command closed settled)

end

/-- The tick after a number of steps. -/
def advance (setting : Setting β) : Nat → Tick β → Checked (Tick β)
  | 0, tick => .ok tick
  | count + 1, tick => do (← advance setting count tick).step setting

/-- Further steps may follow. -/
theorem Steps.snoc {count : Nat} (steps : Steps setting count origin tick)
    (active : tick.machine.command.isTerminal = false) (step : tick.step setting = .ok after) :
    Steps setting (count + 1) origin after :=
  ((Path.of_steps steps).trans (.single trivial active step)).steps

/-- Whatever fits can be stepped any number of times, and stands in one of these ways all along. -/
theorem Fit.advances (fit : tick.Fit setting) (direct : (tick.scene setting).Direct)
    {machine : Machine}
    (prepares : tick.machine.prepareUpdate tick.actor setting.shape = .ok machine) (count : Nat) :
    ∃ reached told, advance setting count { tick with machine } = .ok reached ∧
      reached.story = tick.story ++ told ∧ Stance setting tick told reached ∧
      (reached.machine.command = .done ∨
        ∃ taken, Steps setting taken { tick with machine } reached) := by
  have ready := (tick.actor.isAscending_iff.mp fit.ascending).1
  obtain ⟨left, completes, -⟩ := fit.update_performs
  induction count with
  | zero =>
    refine ⟨{ tick with machine }, [], rfl, (List.append_nil _).symm, ?_, .inr ⟨0, .refl _⟩⟩
    obtain rfl := Machine.eq_of_prepareUpdate prepares
    have closed := tick.machine.openFrames_reset .invoke
    refine .visiting rfl ⟨?_, fun _ _ none => (List.not_mem_nil none).elim, rfl⟩ ?_ rfl
    · rw [closed]
      exact .nil _ _
    · rw [closed]
      exact .root
  | succ count ih =>
    obtain ⟨reached, told, advanced, shown, stance, ways⟩ := ih
    -- Until the machine is done, it takes the steps of the update, all of which lead on.
    have goes : ∃ next, reached.step setting = .ok next ∧ next.machine.command ≠ .error ∧
        (next.machine.command = .done ∨
          ∃ taken, Steps setting taken { tick with machine } next) := by
      by_cases done : reached.machine.command = .done
      · have stays : reached.step setting = .ok (reached.log (.stepStarted .done
            reached.machine.cursor reached.machine.status)) := by
          simp only [Tick.step, done]
        exact ⟨_, stays, fun error => Command.noConfusion (done.symm.trans error), .inl done⟩
      · obtain ⟨taken, steps⟩ := ways.resolve_left done
        obtain ⟨-, errorless, ended⟩ := completes.safe prepares steps
        obtain ⟨next, step⟩ := ended.resolve_left done
        have active : reached.machine.command.isTerminal = false := by
          cases command : reached.machine.command with
          | invoke | resume | cleanup => rfl
          | done => exact absurd command done
          | error => exact absurd command errorless
        have further := steps.snoc active step
        exact ⟨next, step, (completes.safe prepares further).2.1, .inr ⟨_, further⟩⟩
    obtain ⟨next, step, errorless, others⟩ := goes
    obtain ⟨more, tells, after⟩ := stance.proceeds step errorless direct ready
    refine ⟨next, told ++ more, ?_, ?_, after, others⟩
    · simp only [advance, advanced, bind, Except.bind, step]
    · rw [tells, shown, List.append_assoc]

end Tick

namespace Sample

/-- A concurrent decider around a deferred action and a sequence of two immediate ones. -/
def patrol : Shape Nat where
  atoms := #[.decider .concurrent 5, .deferred 7 3, .decider .sequence 5, .immediate 0,
    .immediate 0]
  functions := #[action]
  survey := ⟨[5, 5], #[], 1, 3, 2, 1⟩
  accepted := by decide

/-- The second child of the sequence was active when the actor was updated last. -/
def patrolling : Tick Nat where
  machine := .forShape patrol
  actor := { Actor.forShape 5 patrol with
    continuations := ⟨#[⟨2, 4⟩], #[]⟩
    outstanding := ⟨#[⟨1, .running⟩, ⟨4, .running⟩], #[⟨0, .fail⟩]⟩ }
  board := 0

theorem fit_patrolling : patrolling.Fit ⟨patrol, .zero, false⟩ where
  sized := Machine.sized_new _
  covers := by decide
  supports := by decide
  ascending := by decide
  undecided := by decide

end Sample

namespace Tick

/-- However many steps an update has taken, no error has occurred, and the open deciders, their
marks, the cursor and what is pending agree with what has happened to the nodes since it began.
Where a sequence remembers a child in its span, that must be one of its own children. -/
theorem advance_placed {β : Type} (tick : Tick β) (setting : Setting β) (fit : tick.Fit setting)
    (direct : (tick.scene setting).Direct) :
    ∃ machine, tick.machine.prepareUpdate tick.actor setting.shape = .ok machine ∧
      ∀ count, ∃ reached told, advance setting count { tick with machine } = .ok reached ∧
        reached.story = tick.story ++ told ∧ reached.machine.Placed setting.shape told := by
  have prepares := Machine.prepareUpdate_eq fit.checkRoom
  refine ⟨_, prepares, fun count => ?_⟩
  obtain ⟨reached, told, advanced, shown, stance, -⟩ := fit.advances direct prepares count
  exact ⟨reached, told, advanced, shown, stance.placed⟩

/-- After four steps the sequence of the sample has come to the child that the actor remembers, and
the concurrent decider around it runs, since its first child is active. -/
theorem advance_placed_sample : Sample.patrolling.Fit ⟨Sample.patrol, .zero, false⟩ ∧
    (Sample.patrolling.scene ⟨Sample.patrol, .zero, false⟩).Direct ∧
    ∃ machine reached told,
      Sample.patrolling.machine.prepareUpdate Sample.patrolling.actor Sample.patrol = .ok machine ∧
      advance ⟨Sample.patrol, .zero, false⟩ 4 { Sample.patrolling with machine } = .ok reached ∧
      reached.story = told ∧ Surrounds Sample.patrol told
        [⟨0, 5, 0, 0, .concurrent .running⟩, ⟨2, 5, 0, 0, .sequence 4⟩] 4 := by
  have direct : (Sample.patrolling.scene ⟨Sample.patrol, .zero, false⟩).Direct := by
    intro sequence stop stands child found _ _
    have remembered : (⟨sequence, child⟩ : Entry Nat) ∈ [⟨2, 4⟩] :=
      (SparseStates.find?_eq_some_iff (by decide) sequence child).mp found
    obtain ⟨rfl, rfl⟩ := Entry.mk.inj (List.mem_singleton.mp remembered)
    obtain ⟨-, rfl⟩ := Atom.decider.inj (Option.some.inj stands)
    exact .next (.first (by decide)) (by decide)
  obtain ⟨machine, prepares, stands⟩ :=
    advance_placed Sample.patrolling ⟨Sample.patrol, .zero, false⟩ Sample.fit_patrolling direct
  obtain ⟨reached, told, advanced, story, placed⟩ := stands 4
  have shown : (Sample.patrolling.machine.prepareUpdate Sample.patrolling.actor
      Sample.patrol).toOption.bind (fun machine =>
        (advance ⟨Sample.patrol, .zero, false⟩ 4 { Sample.patrolling with machine }).toOption.map
          fun reached => (reached.machine.command, reached.machine.openFrames,
            reached.machine.cursor)) =
      some (.invoke, [⟨0, 5, 0, 0, .concurrent .running⟩, ⟨2, 5, 0, 0, .sequence 4⟩], 4) := by
    decide +kernel
  rw [prepares, Except.toOption, Option.bind_some, advanced] at shown
  obtain ⟨command, rest⟩ := Prod.mk.inj (Option.some.inj shown)
  obtain ⟨frames, cursor⟩ := Prod.mk.inj rest
  obtain ⟨-, surrounds⟩ := placed.visits command
  rw [frames, cursor] at surrounds
  exact ⟨Sample.fit_patrolling, direct, machine, reached, told, prepares, advanced, story,
    surrounds⟩

end Tick

end BehaviorTree
