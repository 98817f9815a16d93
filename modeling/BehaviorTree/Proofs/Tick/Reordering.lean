import BehaviorTree.Proofs.Course.Emission
import BehaviorTree.Proofs.Tick.Safety

namespace BehaviorTree
open Ordered
variable {β : Type}

namespace Ordered
variable {α σ : Type} [Keyed α] [Parking α σ]

/-- A stack alone is enough for a reorder: the keys are different and can be put into order by a
stack, there is a slot for all that the stack ever holds, the scan is linear, and its entries
ascend. -/
structure SortsByStack (entries : Array α) (slots : Array σ) (result : Reordered α σ) : Prop where
  distinct : (entries.toList.map key).Nodup
  sortable : Sortable (entries.toList.map key)
  room : ∀ rest, rest <:+ entries.toList.map key → (minima rest).length ≤ slots.size
  reorders : reorder entries slots = .ok result
  linear : result.linear = true
  ascending : Ascending result.entries.toList

namespace SortsByStack
variable {entries : Array α} {slots : Array σ} {result : Reordered α σ}

/-- It is enough that the stack has a slot for each of the minima of any rest of the keys. -/
theorem of_room [LawfulParking α σ] (distinct : (entries.toList.map key).Nodup)
    (sortable : Sortable (entries.toList.map key))
    (room : ∀ rest, rest <:+ entries.toList.map key → (minima rest).length ≤ slots.size) :
    ∃ result, SortsByStack entries slots result := by
  obtain ⟨result, reorders, linear, ascending⟩ := reorder_linear distinct sortable room
  exact ⟨result, distinct, sortable, room, reorders, linear, ascending⟩

/-- A reorder by a stack sorts. -/
theorem sorts [LawfulParking α σ] (byStack : SortsByStack entries slots result) :
    Sorts slots entries.toList result := by
  obtain ⟨same, sorted, sorts⟩ := reorder_sorts entries slots
  obtain rfl := Except.ok.inj (sorted.symm.trans byStack.reorders)
  exact sorts

end SortsByStack

end Ordered

/-- The clean-up sorts by stacks alone: what is still pending is drained, the frames are lent to the
sequences and the scratch storage to the changes, nothing is reported of a general sort, and what is
left ascends. -/
structure Tick.CleansByStack (setting : Setting β) (cleaning drained ordered : Tick β)
    (lent : Array Frame) (continuations : Reordered (Entry Nat) Frame)
    (changes : Reordered (Entry Status) (Entry Status)) : Prop where
  drains : (cleaning.log (.stepStarted .cleanup cleaning.machine.cursor
    cleaning.machine.status)).drain setting = .ok drained
  lends : drained.machine.frames.lend = .ok lent
  recorded : SortsByStack drained.machine.continuations.contents lent continuations
  changed : SortsByStack drained.machine.changes.contents drained.machine.changeScratch changes
  reorders : drained.reorder = .ok ordered
  silent : ordered.trace = drained.trace
  continuations_left : ordered.machine.continuations.contents = continuations.entries
  changes_left : ordered.machine.changes.contents = changes.entries
  steps : cleaning.step setting = .ok (ordered.proceed .done)

namespace Mirror
variable {scene : Scene β} {capacities : Capacities} {earlier : List Call} {position : Nat}
  {tick : Tick β} {course : Course β}

/-- The frames are enough to sort what sequences have recorded in post-order. -/
theorem sorts_recorded (mirror : Mirror scene capacities earlier position tick course)
    (enough : scene.shape.needs.frames ≤ capacities.frames)
    (posts : PostOrder 0 scene.shape.size scene.shape.needs.frames
      (course.continuations.map Entry.atom)) :
    ∃ result, SortsByStack tick.machine.continuations.contents tick.machine.frames.slots result
    := by
  have keys : tick.machine.continuations.contents.toList.map key =
      course.continuations.map Entry.atom := by
    rw [mirror.continuations]
    rfl
  have slots : tick.machine.frames.slots.size = capacities.frames := by
    rw [tick.machine.frames.sized, ← mirror.capacities]
    exact mirror.sized.frames
  refine SortsByStack.of_room (keys ▸ posts.distinct) (keys ▸ posts.sortable) ?_
  intro rest suffix
  rw [keys] at suffix
  rw [slots]
  exact Nat.le_trans (posts.nesting rest suffix) enough

/-- A slot for each persistent action is enough to sort the changes that laminar cancellations
make. -/
theorem sorts_changed (mirror : Mirror scene capacities earlier position tick course)
    (sound : Sound scene position course) (laminar : course.Laminar)
    (enough : scene.shape.needs.slotChanges ≤ tick.machine.changeScratch.size) :
    ∃ result, SortsByStack tick.machine.changes.contents tick.machine.changeScratch result := by
  have keys : tick.machine.changes.contents.toList.map key =
      (scene.slotChanges course.canceled).map Entry.atom := by
    rw [mirror.changes]
    rfl
  obtain ⟨distinct, sortable, room⟩ := laminar.slotChanges sound
  rw [← keys] at distinct sortable room
  exact SortsByStack.of_room distinct sortable fun rest suffix =>
    Nat.le_trans (room rest suffix) enough

/-- What a sound course leaves to be cleaned up is sorted by stacks, if its sequences are in
post-order and its cancellations are laminar. -/
theorem cleansByStack (mirror : Mirror scene capacities earlier position tick course)
    (ready : scene.Ready) (covers : capacities.covers scene.shape.needs = true)
    (sound : Sound scene position course) {cursor : Nat}
    (standing : Stands tick .cleanup cursor [])
    (posts : PostOrder 0 scene.shape.size scene.shape.needs.frames
      (course.continuations.map Entry.atom))
    (laminar : course.Laminar)
    (scratch : tick.machine.changeScratch.size = tick.machine.capacities.slotChanges) :
    ∃ drained ordered lent continuations changes,
      Tick.CleansByStack scene.toSetting tick drained ordered lent continuations changes := by
  let started := tick.log (.stepStarted .cleanup tick.machine.cursor tick.machine.status)
  obtain ⟨drained, drains, ⟨-, -, -, frames⟩, drained_mirror⟩ :=
    Mirror.drain (mirror.log (.stepStarted .cleanup tick.machine.cursor tick.machine.status))
      ready covers sound
  have stores : tick.machine.Stores drained.machine :=
    started.stores_drain scene.toSetting drained drains
  have drained_sound := sound.drain ready
  have needed := (Capacities.covers_iff _ _).mp covers
  have closed : drained.machine.frames.contents.toList = [] := by
    rw [frames]
    exact standing.frames
  obtain ⟨continuations, recorded⟩ := drained_mirror.sorts_recorded (needed .frames)
    (by rw [Course.continuations_drain]; exact posts)
  obtain ⟨changes, changed⟩ := drained_mirror.sorts_changed drained_sound
    (laminar.drain ready sound)
    (by rw [stores.scratch, scratch, mirror.capacities]; exact needed .slotChanges)
  have reordered : drained.reorder = .ok (drained.arranged continuations changes) := by
    rw [Tick.reorder_eq closed recorded.reorders changed.reorders, recorded.linear,
      changed.linear]
    rfl
  refine ⟨drained, drained.arranged continuations changes, drained.machine.frames.slots,
    continuations, changes, drains, Buffer.lend_empty closed, recorded, changed, reordered, rfl,
    recorded.sorts.contents_overwrite, changed.sorts.contents_overwrite, ?_⟩
  have outstanding : Ascending
      (drained.arranged continuations changes).machine.outstanding.contents.toList := by
    show Ascending drained.machine.outstanding.contents.toList
    rw [drained_mirror.outstanding]
    exact drained_sound.ascending
  simp only [Tick.step, standing.command]
  simp only [Tick.cleanup, drains, reordered, require, outstanding, decide_true, if_true, bind,
    Except.bind, pure, Except.pure]

end Mirror

namespace Tick
variable {tick : Tick β} {setting : Setting β}

/-- The steps of a prepared traversal lead to the clean-up within the budget, and wherever they lead
to it, stacks alone put into order what is cleaned up. -/
structure SortsLinearly (setting : Setting β) (begun : Tick β) : Prop where
  arrives : ∃ count < stepBudget setting.shape, ∃ cleaning, Steps setting count begun cleaning ∧
    cleaning.machine.command = .cleanup
  sorts : ∀ count cleaning, Steps setting count begun cleaning →
    cleaning.machine.command = .cleanup →
    ∃ drained ordered lent continuations changes,
      CleansByStack setting cleaning drained ordered lent continuations changes

/-- There is one state to clean up, so what holds of the one that the course leads to is enough. -/
theorem Cleans.sortsLinearly {machine : Machine} {position : Nat} {finish : Status × Course β}
    {told : List Happening} {shown : List Notice} {cleaning : Tick β} (fit : tick.Fit setting)
    (cleans : tick.Cleans setting machine position finish told shown cleaning)
    (posts : PostOrder 0 setting.shape.size setting.shape.needs.frames
      (finish.2.continuations.map Entry.atom))
    (laminar : finish.2.Laminar)
    (scratch : machine.changeScratch.size = machine.capacities.slotChanges) :
    SortsLinearly setting { tick with machine } := by
  obtain ⟨count, enough, path⟩ := cleans.path
  obtain ⟨cursor, standing⟩ := cleans.standing
  have steps := path.steps
  refine ⟨⟨count, enough, cleaning, steps, standing.command⟩, fun taken other others cleanup => ?_⟩
  have same : cleaning = other :=
    (Path.of_steps_cleanup steps standing.command).end_eq (fun up => up standing.command)
      (Path.of_steps_cleanup others cleanup) (fun up => up cleanup)
  subst same
  have stores := steps.stores
  exact cleans.mirror.cleansByStack fit.ready fit.covers cleans.sound standing posts laminar
    (by rw [stores.scratch, stores.capacities]; exact scratch)

/-- What is sorted is what the course holds: the children that sequences have recorded, and the
changes of slots that its cancellations make. -/
theorem Cleans.sorted {machine : Machine} {position : Nat} {finish : Status × Course β}
    {told : List Happening} {shown : List Notice} {cleaning : Tick β} (fit : tick.Fit setting)
    (cleans : tick.Cleans setting machine position finish told shown cleaning)
    (sorts : SortsLinearly setting { tick with machine }) :
    ∃ drained ordered lent continuations changes,
      CleansByStack setting cleaning drained ordered lent continuations changes ∧
      drained.machine.continuations.contents.toList = finish.2.continuations ∧
      drained.machine.changes.contents.toList =
        (tick.scene setting).slotChanges (finish.2.drain (tick.scene setting)).canceled := by
  obtain ⟨count, -, path⟩ := cleans.path
  obtain ⟨cursor, standing⟩ := cleans.standing
  obtain ⟨drained, ordered, lent, continuations, changes, byStack⟩ :=
    sorts.sorts count cleaning path.steps standing.command
  obtain ⟨other, drains, -, mirror⟩ := (cleans.mirror.log (.stepStarted .cleanup
    cleaning.machine.cursor cleaning.machine.status)).drain fit.ready fit.covers cleans.sound
  obtain rfl := Except.ok.inj (drains.symm.trans byStack.drains)
  exact ⟨other, ordered, lent, continuations, changes, byStack,
    mirror.continuations.trans (Course.continuations_drain _ _), mirror.changes⟩

/-- An update sorts by stacks alone. -/
theorem Fit.update_sorts (fit : tick.Fit setting)
    (scratch : tick.machine.changeScratch.size = tick.machine.capacities.slotChanges) :
    SortsLinearly setting { tick with
      machine := { tick.machine.reset with command := .invoke } } := by
  obtain ⟨cleaning, cleans⟩ := fit.update_cleans
  have laminar := (Course.Laminar.opening (tick.scene setting) tick.board).reaches fit.ready
    (Scene.traversal_reaches fit.ready (tick.scene setting).coherent_trivial tick.board)
    (Sound.opening (tick.scene setting) tick.board)
  exact cleans.sortsLinearly fit (Scene.emits_update fit.ready tick.board) laminar scratch

/-- So does a cancellation. -/
theorem Fit.cancel_sorts (fit : tick.Fit setting)
    (scratch : tick.machine.changeScratch.size = tick.machine.capacities.slotChanges) :
    SortsLinearly setting { tick with machine := { tick.machine.reset with
      command := .cleanup, status := .cancel
      pending := Span.empty.cover ⟨0, setting.shape.size⟩ } } := by
  have laminar := Course.Laminar.opening (tick.scene setting) tick.board
  exact fit.cancel_cleans.sortsLinearly fit .nil (laminar.extend rfl fun _ => Or.inl) scratch

/-- In the clean-up of every update and every cancellation of whatever fits, stacks alone put both
arrays into order, the frames for the sequences and the scratch storage for the changes, which is as
large as the machine was set up with. -/
theorem reorders_linear {β : Type} (tick : Tick β) (setting : Setting β) (fit : tick.Fit setting)
    (scratch : tick.machine.changeScratch.size = tick.machine.capacities.slotChanges) :
    (∃ machine, tick.machine.prepareUpdate tick.actor setting.shape = .ok machine ∧
      SortsLinearly setting { tick with machine }) ∧
    ∃ machine, tick.machine.prepareCancel tick.actor setting.shape = .ok machine ∧
      SortsLinearly setting { tick with machine } := by
  constructor
  · refine ⟨_, ?_, fit.update_sorts scratch⟩
    simp only [Machine.prepareUpdate, fit.checkRoom, bind, Except.bind, pure, Except.pure]
  · refine ⟨_, ?_, fit.cancel_sorts scratch⟩
    simp only [Machine.prepareCancel, fit.checkRoom, bind, Except.bind, pure, Except.pure]

end Tick

namespace Sample

/-- A sequence within a sequence, and a dynamic priority of three persistent actions behind them. -/
def ranking : Shape Nat where
  atoms := #[.decider .concurrent 9, .decider .sequence 5, .decider .sequence 4, .immediate 0,
    .persistent 0, .decider .dynamicPriority 9, .persistent 1, .persistent 2, .persistent 3]
  functions := #[action]
  survey := ⟨[9, 9], #[4, 6, 7, 8], 2, 5, 3, 0⟩
  accepted := by decide

/-- Both sequences go on, and the priority now chooses its first action, so that the others are
given up. -/
def ranked : Tick Nat where
  machine := .forShape ranking
  actor := { Actor.forShape 5 ranking with
    slots := #[.running, .success, .running, .running]
    continuations := ⟨#[⟨1, 2⟩, ⟨2, 3⟩], #[]⟩
    outstanding := ⟨#[⟨3, .running⟩, ⟨7, .running⟩, ⟨8, .running⟩], #[⟨0, .fail⟩, ⟨0, .fail⟩]⟩ }
  board := 0

theorem fit_ranked : ranked.Fit ⟨ranking, .zero, false⟩ where
  sized := Machine.sized_new _
  covers := by decide
  supports := by decide
  ascending := by decide
  undecided := by decide

end Sample

namespace Tick

/-- The sequences of the sample are recorded from the inside, and its changes are made from the
back; both are sorted by stacks alone. So are the changes that a cancellation makes. -/
theorem reorders_linear_sample : Sample.ranked.Fit ⟨Sample.ranking, .zero, false⟩ ∧
    (∃ machine cleaning drained ordered lent continuations changes,
      Sample.ranked.machine.prepareUpdate Sample.ranked.actor Sample.ranking = .ok machine ∧
      SortsLinearly ⟨Sample.ranking, .zero, false⟩ { Sample.ranked with machine } ∧
      CleansByStack ⟨Sample.ranking, .zero, false⟩ cleaning drained ordered lent continuations
        changes ∧
      drained.machine.continuations.contents.toList = [⟨2, 3⟩, ⟨1, 2⟩] ∧
      drained.machine.changes.contents.toList = [⟨8, .cancel⟩, ⟨7, .cancel⟩]) ∧
    ∃ machine cleaning drained ordered lent continuations changes,
      Sample.ranked.machine.prepareCancel Sample.ranked.actor Sample.ranking = .ok machine ∧
      SortsLinearly ⟨Sample.ranking, .zero, false⟩ { Sample.ranked with machine } ∧
      CleansByStack ⟨Sample.ranking, .zero, false⟩ cleaning drained ordered lent continuations
        changes ∧
      drained.machine.continuations.contents.toList = [] ∧
      drained.machine.changes.contents.toList = [⟨8, .cancel⟩, ⟨7, .cancel⟩] := by
  have fit := Sample.fit_ranked
  obtain ⟨⟨begun, updates, first⟩, ending, cancels, second⟩ :=
    reorders_linear Sample.ranked ⟨Sample.ranking, .zero, false⟩ fit rfl
  obtain rfl := Except.ok.inj updates
  obtain rfl := Except.ok.inj cancels
  obtain ⟨cleaning, cleans⟩ := fit.update_cleans
  obtain ⟨drained, ordered, lent, continuations, changes, byStack, recorded, changed⟩ :=
    cleans.sorted fit first
  obtain ⟨others, another, loan, resumed, canceled, alike, none, dropped⟩ :=
    fit.cancel_cleans.sorted fit second
  exact ⟨fit, ⟨_, cleaning, drained, ordered, lent, continuations, changes, updates, first, byStack,
    recorded.trans (by decide +kernel), changed.trans (by decide +kernel)⟩, _, _, others, another,
    loan, resumed, canceled, cancels, second, alike, none, dropped.trans (by decide +kernel)⟩

end Tick

end BehaviorTree
