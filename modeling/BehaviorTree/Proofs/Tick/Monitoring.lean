import BehaviorTree.Proofs.Course.Reach
import BehaviorTree.Proofs.Tick.Cancellation
import Mathlib.Data.List.Permutation

namespace BehaviorTree
open Course
variable {β : Type}

/-- Among the calls of a course, those that tell a function to cancel are for the immediate actions
among the atoms that it cancels. -/
def Course.TellsCancels (scene : Scene β) (course : Course β) : Prop :=
  (course.calls.map Call.asked).filter (fun asked => decide (asked.2.2 = .cancel)) =
    scene.shape.cancelCalls course.canceled

theorem Shape.cancelCalls_append (shape : Shape β) (first second : List Nat) :
    shape.cancelCalls (first ++ second) = shape.cancelCalls first ++ shape.cancelCalls second :=
  List.filterMap_append

/-- The calls that tell an action to cancel ask nothing else. -/
theorem Shape.filter_cancelCalls (shape : Shape β) (atoms : List Nat) :
    (shape.cancelCalls atoms).filter (fun asked => decide (asked.2.2 = .cancel)) =
      shape.cancelCalls atoms := by
  refine List.filter_eq_self.mpr fun asked member => ?_
  obtain ⟨atom, -, told⟩ := List.mem_filterMap.mp member
  split at told
  · obtain rfl := Option.some.inj told
    rfl
  all_goals cases told

namespace Course.TellsCancels
variable {scene : Scene β} {course : Course β}

theorem opening (scene : Scene β) (board : β) : (scene.opening board).TellsCancels scene := rfl

theorem drain (tells : course.TellsCancels scene) : (course.drain scene).TellsCancels scene := by
  rw [TellsCancels, canceled_drain, Shape.cancelCalls_append, ← tells, due]
  by_cases empty : course.pending.isEmpty = true
  · rw [drain_of_isEmpty scene empty, if_pos empty]
    simp [Shape.cancelCalls]
  · rw [if_neg empty, Course.drain, if_neg empty, asked_cancelAll, List.filter_append,
      Shape.filter_cancelCalls]

/-- A visit tells nothing to cancel. -/
theorem visit (tells : course.TellsCancels scene) (atom : Nat) (leaf : Leaf) :
    (course.visit scene atom leaf).2.TellsCancels scene := by
  obtain ⟨status, added, entry, request, board, seed, delivers, visits⟩ :=
    course.visit_eq scene atom leaf
  have asks : (added.map Call.asked).filter (fun asked => decide (asked.2.2 = .cancel)) = [] := by
    cases delivers with
    | called function returned =>
      simp only [List.map_cons, List.map_nil, Call.asked]
      split <;> rfl
    | _ => rfl
  rw [TellsCancels, visits]
  simp only [List.map_append, List.filter_append, asks, List.append_nil]
  exact tells

theorem move {quiet : Nat → Prop} {position later : Nat} {after : Course β}
    (move : Move scene quiet position course later after) (tells : course.TellsCancels scene) :
    after.TellsCancels scene := by
  cases move with
  | drain => exact tells.drain
  | visit => exact tells.visit _ _
  | enter | pass | record | abandon | fail => exact tells

end Course.TellsCancels

/-- In an update, exactly the canceled immediate actions are told to cancel. -/
theorem Scene.tells_update {scene : Scene β} (ready : scene.Ready) (board : β) :
    (scene.update board).2.TellsCancels scene := by
  have step : ∀ position course later after,
      Move scene (fun _ => True) position course later after →
        course.TellsCancels scene → after.TellsCancels scene :=
    fun _ _ _ _ move tells => tells.move move
  exact (Scene.update_reaches ready scene.coherent_trivial board).invariant step
    (.opening scene board)

/-- A tick has canceled some actions, and no others, one after the other: it has told the immediate
ones, has requested it of the deferred ones, and has changed the slots of the persistent ones. -/
structure Tick.CancelsInTurn (setting : Setting β) (before : Tick β) (atoms : List Nat)
    (after : Tick β) : Prop where
  actions : ∀ atom ∈ atoms, (setting.shape.atom? atom).any Atom.isAction = true
  single : atoms.Nodup
  calls : ∃ calls, after.calls = before.calls ++ calls ∧
    (calls.map Call.asked).filter (fun asked => decide (asked.2.2 = .cancel)) =
      setting.shape.cancelCalls atoms
  requests : after.machine.requests.cancels.toList =
    ((before.scene setting).cancelRequests atoms).reverse
  slots : ∀ slot, after.actor.slots[slot]? = before.actor.slots[slot]?.map fun status =>
    if ∃ atom ∈ atoms, setting.shape.atom? atom = some (.persistent slot) then .cancel else status

/-- A tick has gone through its tree in passages, and has canceled in the end what was left over.
Its monitor has been shown the passages and the cancellations, and no more: without the
cancellations, that is the walk through the nodes that have been visited. -/
structure Tick.ShowsWalk (setting : Setting β) (before : Tick β) (told : List Happening)
    (passages : List Passage) (last : List Nat) (after : Tick β) : Prop where
  story : after.story = before.story ++ told
  notices : after.notices =
    before.notices ++ (passages.flatMap Passage.notices ++ Notice.ofCancels 0 last)
  walk : (passages.flatMap Passage.notices ++ Notice.ofCancels 0 last).filter
      (fun notice => !notice.cancels) =
    setting.shape.tree.walk (fun atom => decide (.entered atom ∈ told)) 0 0
  passes : ∀ passage ∈ passages, passage.notice.cancels = false
  batched : Passage.Batched passages
  falls : last.Pairwise (· > ·)
  cancels : before.CancelsInTurn setting (passages.flatMap Passage.canceled ++ last) after

namespace Sample

/-- A dynamic priority of two actions, and a persistent action behind it, under a concurrent
decider. -/
def preference : Shape Nat where
  atoms := #[.decider .concurrent 5, .decider .dynamicPriority 4, .immediate 0, .immediate 0,
    .persistent 0]
  functions := #[action]
  survey := ⟨[5], #[4], 0, 3, 2, 0⟩
  accepted := by decide

/-- The second of the two actions was active when the actor was updated last, and the persistent
action has failed since. -/
def preferring : Tick Nat where
  machine := .forShape preference
  actor := { Actor.forShape 5 preference with
    slots := #[.fail]
    outstanding := ⟨#[⟨3, .running⟩], #[⟨0, .fail⟩, ⟨0, .fail⟩]⟩ }
  board := 0

theorem fit_preferring : preferring.Fit ⟨preference, .zero, true⟩ where
  sized := Machine.sized_new _
  covers := by decide
  supports := by decide
  ascending := by decide
  undecided := by decide

end Sample

namespace Tick
variable {setting : Setting β} {tick : Tick β}

/-- An update that is watched shows a walk through the nodes that it visits. Where a sequence
remembers a child in its span, that must be one of its own children. -/
theorem update_shows_walk {β : Type} (tick : Tick β) (setting : Setting β) (fit : tick.Fit setting)
    (watched : setting.monitored = true) (direct : (tick.scene setting).Direct) :
    ∃ result after told passages last, tick.update setting = .ok ⟨.ok result, after⟩ ∧
      tick.ShowsWalk setting told passages last after := by
  let scene := tick.scene setting
  let whole := scene.whole tick.board
  have ready : scene.Ready := fit.ready
  have valid : whole.Valid scene := scene.whole_valid tick.board
  obtain ⟨after, completes, performs⟩ := fit.update_performs
  have updated := completes.complete_eq
  have sound := fit.update_sound
  have shown := fit.shows_update updated
  rw [Shows, Setting.shown, if_pos watched] at shown
  have visited : Marks (fun atom => decide (.entered atom ∈ whole.tour scene)) (whole.tour scene)
      whole.index whole.stop := fun atom _ _ => decide_eq_true_iff
  have follows : (whole.passages scene 0).map Passage.notice =
      setting.shape.tree.walk (fun atom => decide (.entered atom ∈ whole.tour scene)) 0 0 :=
    valid.follows ready direct 0 _ visited
  have passing : ∀ passage ∈ whole.passages scene 0, passage.notice.cancels = false := by
    intro passage member
    have walked : passage.notice ∈ (whole.passages scene 0).map Passage.notice :=
      List.mem_map_of_mem member
    rw [follows] at walked
    exact Tree.walk_passes _ _ _ _ _ walked
  have canceled : ((tick.scene setting).update tick.board).2.canceled =
      (whole.passages scene 0).flatMap Passage.canceled ++ (whole.after scene).due scene := by
    rw [Scene.update_eq, canceled_drain, valid.canceled ready 0, drain_of_isEmpty scene rfl]
    rfl
  refine ⟨_, after, whole.tour scene, whole.passages scene 0, (whole.after scene).due scene,
    updated, ?_⟩
  constructor
  case story => exact fit.story_update updated
  case notices => exact shown
  case walk => exact (Passage.filter_notices passing _).trans follows
  case passes => exact passing
  case batched => exact valid.batched ready 0
  case falls => exact (valid.sound_after ready).pairwise_due ready
  case cancels =>
    rw [← canceled]
    exact ⟨fun atom member => (sound.canceled atom member).2, (List.nodup_append.mp sound.single).1,
      ⟨_, performs.calls, Scene.tells_update ready tick.board⟩, performs.cancels, performs.slot_eq⟩

/-- In the sample the first action is preferred, so the second is canceled on the way to the
persistent action; since that one fails, so is the first in the end. -/
theorem update_shows_walk_sample : Sample.preferring.Fit ⟨Sample.preference, .zero, true⟩ ∧
    (Sample.preferring.scene ⟨Sample.preference, .zero, true⟩).Direct ∧
    ∃ after told passages last,
      Sample.preferring.update ⟨Sample.preference, .zero, true⟩ = .ok ⟨.ok .fail, after⟩ ∧
      after.notices = [.entered 0 0, .down 0 1, .entered 1 1, .down 1 2, .entered 2 2, .left 2 2,
          .up 1 2, .left 1 1, .up 0 1, .down 0 1] ++ Notice.ofCancels 1 [3] ++
        [.entered 4 1, .left 4 1, .up 0 1, .left 0 0] ++ Notice.ofCancels 0 [2] ∧
      Sample.preferring.ShowsWalk ⟨Sample.preference, .zero, true⟩ told passages last after := by
  have direct : (Sample.preferring.scene ⟨Sample.preference, .zero, true⟩).Direct := by
    intro sequence stop stands child found
    cases found
  obtain ⟨result, after, told, passages, last, updated, walks⟩ :=
    update_shows_walk Sample.preferring ⟨Sample.preference, .zero, true⟩ Sample.fit_preferring rfl
      direct
  have shown : (Sample.preferring.update ⟨Sample.preference, .zero, true⟩).map (fun outcome =>
      (outcome.answer, outcome.tick.notices)) = .ok (.ok .fail, [.entered 0 0, .down 0 1,
        .entered 1 1, .down 1 2, .entered 2 2, .left 2 2, .up 1 2, .left 1 1, .up 0 1,
        .down 0 1] ++ Notice.ofCancels 1 [3] ++ [.entered 4 1, .left 4 1, .up 0 1, .left 0 0] ++
        Notice.ofCancels 0 [2]) := by cbv
  rw [updated] at shown
  obtain ⟨answer, notices⟩ := Prod.mk.inj (Except.ok.inj shown)
  obtain rfl := Except.ok.inj answer
  exact ⟨Sample.fit_preferring, direct, after, told, passages, last, updated, notices, walks⟩

end Tick

end BehaviorTree
