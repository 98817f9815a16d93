import BehaviorTree.Proofs.Course.Traces
import BehaviorTree.Proofs.Tick.Safety

namespace BehaviorTree
open Ordered
variable {β : Type}

namespace Tick
variable {setting : Setting β} {tick after other invoked delivered : Tick β}

/-- The node that the machine is about to visit is delivered: the first step goes into it, and
more deciders are open from then on until those are open again that were open before. -/
structure Delivers (setting : Setting β) (invoked delivered : Tick β) : Prop where
  path : ∃ entered count, invoked.step setting = .ok entered ∧ Path setting
    (fun tick => invoked.machine.frames.count < tick.machine.frames.count) count entered delivered
  frames : delivered.machine.frames.contents = invoked.machine.frames.contents

/-- A node is delivered once. -/
theorem Delivers.unique (delivers : Delivers setting invoked delivered)
    (others : Delivers setting invoked other) : delivered = other := by
  obtain ⟨entered, first, step, path⟩ := delivers.path
  obtain ⟨again, second, same, another⟩ := others.path
  obtain rfl := Except.ok.inj (step.symm.trans same)
  have closed {tick : Tick β}
      (frames : tick.machine.frames.contents = invoked.machine.frames.contents) :
      ¬invoked.machine.frames.count < tick.machine.frames.count := by
    rw [← Buffer.length_contents, ← Buffer.length_contents, frames]
    exact Nat.lt_irrefl _
  exact path.end_eq (closed delivers.frames) another (closed others.frames)

/-- What a node has left when it is delivered. A node that is finished has recorded no child and has
launched nothing, and all actions that it has left outstanding are about to be drained, so that a
drain restores what was there before; a node that is active has left one that is not. -/
structure LeavesTraces (setting : Setting β) (invoked delivered : Tick β) : Prop where
  notCanceled : delivered.machine.status ≠ .cancel
  finished : delivered.machine.status = .success ∨ delivered.machine.status = .fail →
    delivered.machine.continuations.contents = invoked.machine.continuations.contents ∧
    delivered.machine.requests.launches = invoked.machine.requests.launches ∧
    (∃ added, delivered.machine.outstanding.contents.toList =
        invoked.machine.outstanding.contents.toList ++ added ∧
      (∀ entry ∈ added, delivered.machine.pending.contains entry.atom = true) ∧
      (delivered.machine.status = .success → added = [])) ∧
    ∃ drained, delivered.drain setting = .ok drained ∧
      drained.machine.outstanding.contents = invoked.machine.outstanding.contents
  active : delivered.machine.status = .launch ∨ delivered.machine.status = .running →
    ∃ entry ∈ delivered.machine.outstanding.contents.toList,
      (setting.shape.atom? entry.atom).any Atom.isAction = true ∧
      invoked.machine.cursor ≤ entry.atom ∧
      entry.atom < setting.shape.stopAt invoked.machine.cursor ∧
      delivered.machine.pending.contains entry.atom = false

end Tick

section
variable {scene : Scene β} {capacities : Capacities} {earlier : List Call} {tick : Tick β}
  {turn : Turn β} {outer : List Frame} (ready : scene.Ready)
  (covers : capacities.covers scene.shape.needs = true)
include ready covers

/-- What a machine leaves of a tree is what the interpretation leaves. -/
theorem Delivered.leavesTraces {count : Nat} {entered after : Tick β}
    (poised : Poised scene capacities earlier tick turn outer)
    (delivered : Delivered scene capacities earlier tick turn outer count entered after) :
    Tick.LeavesTraces scene.toSetting tick after := by
  have valid := poised.valid
  have traces := valid.traces ready
  have sound := valid.sound_after ready
  have mirror := delivered.mirror
  have before := poised.mirror
  have passed (entry : Entry Status) (member : entry ∈ (turn.course.drain scene).outstanding) :
      entry.atom < turn.index :=
    (valid.sound.drain ready).outstanding_lt member
  refine ⟨?_, fun finished => ?_, fun active => ?_⟩
  · rw [delivered.status]
    exact turn.status_ne_cancel scene
  · rw [delivered.status] at finished ⊢
    have inactive : ∀ status ∈ [turn.status scene], status.isActive = false := by
      intro status member
      obtain rfl := List.mem_singleton.mp member
      obtain success | failed := finished
      · rw [success]
        rfl
      · rw [failed]
        rfl
    have spotless := traces.finished inactive
    obtain ⟨added, added_eq, added_from⟩ := traces.adds.outstanding
    obtain ⟨drained, drains, -, drained_mirror⟩ := mirror.drain ready covers sound
    refine ⟨?_, ?_, ⟨added, ?_, fun entry member => ?_, fun success => ?_⟩, drained, drains, ?_⟩
    · rw [← Array.toList_inj, mirror.continuations, before.continuations, spotless.continuations]
    · rw [← Array.toList_inj, mirror.launches, before.launches, spotless.launches]
    · rw [mirror.outstanding, before.outstanding, added_eq]
    · have held : entry ∈ (turn.after scene).outstanding := by
        rw [added_eq]
        exact List.mem_append_right _ member
      rw [mirror.pending]
      exact spotless.contains sound held (added_from entry member)
    · have same := traces.succeeded inactive fun status last => by
        obtain rfl := Option.some.inj last
        exact success
      rw [added_eq] at same
      exact List.append_right_eq_self.mp same
    · rw [← Array.toList_inj, drained_mirror.outstanding, before.outstanding]
      exact spotless.drain traces.adds passed
  · rw [delivered.status] at active
    have running : (turn.status scene).isActive = true := by
      obtain launched | running := active
      · rw [launched]
        rfl
      · rw [running]
        rfl
    obtain ⟨entry, keeps, from_⟩ := traces.active ⟨_, List.mem_cons_self, running⟩
    refine ⟨entry, ?_, (sound.outstanding entry keeps.1).2.2, ?_, ?_, ?_⟩
    · rw [mirror.outstanding]
      exact keeps.1
    · rw [poised.standing.cursor]
      exact from_
    · rw [poised.standing.cursor, valid.stopAt]
      exact sound.outstanding_lt keeps.1
    · rw [mirror.pending]
      exact keeps.contains_eq

/-- A machine that is about to visit a tree delivers it as it is interpreted, and leaves its
traces. -/
theorem Poised.delivers (poised : Poised scene capacities earlier tick turn outer) :
    ∃ delivered, Tick.Delivers scene.toSetting tick delivered ∧
      Tick.LeavesTraces scene.toSetting tick delivered ∧
      delivered.machine.status = turn.status scene ∧
      delivered.machine.outstanding.contents.toList = (turn.after scene).outstanding := by
  obtain ⟨tree, index, course⟩ := turn
  obtain ⟨count, entered, after, -, delivered⟩ := tree.simulates ready covers poised
  have opened : tick.machine.frames.count = outer.length := poised.standing.count_eq
  refine ⟨after, ⟨⟨entered, count, delivered.first, ?_⟩, ?_⟩,
    delivered.leavesTraces ready covers poised, delivered.status, delivered.mirror.outstanding⟩
  · rw [opened]
    exact delivered.path.mono fun _ visiting => visiting.1
  · rw [← Array.toList_inj, delivered.standing.frames, poised.standing.frames]

end

/-- After an update the actor is idle exactly if what is delivered is not active. -/
theorem Performs.isIdle_update {scene : Scene β} {before after : Tick β} {board : β}
    (ready : scene.Ready) (performs : Performs scene before (scene.update board).2 after) :
    after.actor.isIdle = true ↔ (scene.update board).1.isActive = false := by
  have traces := Scene.traces_update ready board
  have settled : (scene.update board).2.pending.isEmpty = true := Course.isEmpty_pending_drain _ _
  have continuations := (sortByKey_perm (scene.update board).2.continuations.toArray).length_eq
  rw [← performs.continuations] at continuations
  simp only [Actor.isIdle, SparseStates.count, Bool.and_eq_true, beq_iff_eq, performs.outstanding,
    ← Array.length_toList, continuations, List.length_eq_zero_iff]
  constructor
  · rintro ⟨-, idle⟩
    by_contra active
    rw [Bool.not_eq_false] at active
    obtain ⟨entry, keeps, -⟩ := traces.active ⟨_, List.mem_cons_self, active⟩
    have held := keeps.1
    rw [idle] at held
    cases held
  · intro inactive
    have spotless := traces.finished fun status member => by
      obtain rfl := List.mem_singleton.mp member
      exact inactive
    refine ⟨spotless.continuations, List.eq_nil_iff_forall_not_mem.mpr fun entry member => ?_⟩
    exact Nat.not_lt_zero _ (spotless.kept entry ⟨member, Or.inl settled⟩)

namespace Tick
variable {setting : Setting β} {tick invoked : Tick β}

/-- What is visited in an update of whatever fits is delivered and leaves its traces. -/
theorem Fit.delivers (fit : tick.Fit setting) {count : Nat}
    (steps : Steps setting count { tick with
      machine := { tick.machine.reset with command := .invoke } } invoked)
    (invoke : invoked.machine.command = .invoke) :
    ∃ delivered, Delivers setting invoked delivered ∧ LeavesTraces setting invoked delivered := by
  obtain ⟨settled, settles⟩ := fit.update_settles
  obtain ⟨total, -, path⟩ := settles.path
  have done : settled.machine.command = .done := settles.leaves.command
  obtain ⟨left, rest, -⟩ := path.rest (by rw [done]; rfl) steps
  cases rest with
  | refl =>
    rw [done] at invoke
    cases invoke
  | cons visiting _ _ _ =>
    obtain ⟨turn, outer, poised⟩ := visiting.2 invoke
    obtain ⟨delivered, delivers, leaves, -⟩ := poised.delivers fit.ready fit.covers
    exact ⟨delivered, delivers, leaves⟩

/-- In an update of whatever fits, each node that is visited is delivered, with a status that is not
cancel. A node that has succeeded or failed has left nothing but what is about to be drained, and an
active node has left an action of its own outstanding. So the actor is idle after the update exactly
if the update delivers success or failure. -/
theorem visited_leavesTraces {β : Type} (tick : Tick β) (setting : Setting β)
    (fit : tick.Fit setting) :
    (∃ machine, tick.machine.prepareUpdate tick.actor setting.shape = .ok machine ∧
      ∀ count invoked, Steps setting count { tick with machine } invoked →
        invoked.machine.command = .invoke →
          (∃ delivered, Delivers setting invoked delivered) ∧
          ∀ delivered, Delivers setting invoked delivered →
            LeavesTraces setting invoked delivered) ∧
    ∃ result after, tick.update setting = .ok ⟨.ok result, after⟩ ∧
      (after.actor.isIdle = true ↔ result = .success ∨ result = .fail) := by
  refine ⟨⟨{ tick.machine.reset with command := .invoke }, ?_, ?_⟩, ?_⟩
  · simp only [Machine.prepareUpdate, fit.checkRoom, bind, Except.bind, pure, Except.pure]
  · intro count invoked steps invoke
    obtain ⟨delivered, delivers, leaves⟩ := fit.delivers steps invoke
    refine ⟨⟨delivered, delivers⟩, fun other others => ?_⟩
    obtain rfl := delivers.unique others
    exact leaves
  · obtain ⟨after, completes, performs⟩ := fit.update_performs
    refine ⟨_, after, completes.complete_eq, (performs.isIdle_update fit.ready).trans ?_⟩
    have notCanceled : ((tick.scene setting).update tick.board).1 ≠ .cancel :=
      ((tick.scene setting).whole tick.board).status_ne_cancel _
    generalize ((tick.scene setting).update tick.board).1 = result at notCanceled ⊢
    cases result with
    | cancel => exact absurd rfl notCanceled
    | launch | running | success | fail => simp [Status.isActive]

/-- The root of the sample fails behind two active actions. They are outstanding when it is
delivered, and a drain takes both of them back, so the actor is idle after the update. -/
theorem visited_leavesTraces_sample : Sample.failing.Fit Sample.setting ∧
    (∃ invoked delivered drained, invoked.machine.command = .invoke ∧
      Delivers Sample.setting invoked delivered ∧
      LeavesTraces Sample.setting invoked delivered ∧ delivered.machine.status = .fail ∧
      delivered.machine.outstanding.contents.toList = [⟨1, .running⟩, ⟨2, .running⟩] ∧
      delivered.drain Sample.setting = .ok drained ∧
      drained.machine.outstanding.contents = #[]) ∧
    ∃ after, Sample.failing.update Sample.setting = .ok ⟨.ok .fail, after⟩ ∧
      after.actor.isIdle = true := by
  have fit := Sample.fit_failing
  obtain ⟨⟨begun, prepared, leaves⟩, result, after, updates, idle⟩ :=
    visited_leavesTraces Sample.failing Sample.setting fit
  obtain rfl := Machine.eq_of_prepareUpdate prepared
  obtain ⟨delivered, delivers, -, status, outstanding⟩ := fit.poised.delivers fit.ready fit.covers
  have failed : delivered.machine.status = .fail := status.trans (by decide +kernel)
  obtain ⟨-, traces⟩ := leaves 0 _ (.refl _) rfl
  obtain ⟨-, -, -, drained, drains, restored⟩ :=
    (traces delivered delivers).finished (.inr failed)
  obtain ⟨other, completes, -⟩ := fit.update_performs
  have answer : ((Sample.failing.scene Sample.setting).update 0).1 = .fail := by decide +kernel
  obtain ⟨same, -⟩ := Outcome.mk.inj (Except.ok.inj (updates.symm.trans completes.complete_eq))
  obtain rfl : result = .fail := (Except.ok.inj same).trans answer
  exact ⟨fit, ⟨_, delivered, drained, rfl, delivers, traces delivered delivers, failed,
    outstanding.trans (by decide +kernel), drains, restored⟩, after, updates, idle.mpr (.inr rfl)⟩

end Tick

end BehaviorTree
