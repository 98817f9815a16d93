import BehaviorTree.Proofs.Course.Direct
import BehaviorTree.Proofs.Tick.Safety

namespace BehaviorTree
open Ordered

/-- An update delivers what the interpretation of the tree of the shape delivers, with the same
calls in the same order, and it leaves the blackboard, the seed, the sparse arrays, the slots and
the requests that the interpretation leaves. Where what is remembered of sequences are children, the
interpretation of a sequence visits its children in turn, from the remembered one on. -/
theorem Tick.update_interprets {β : Type} (tick : Tick β) (setting : Setting β)
    (fit : tick.Fit setting) :
    setting.shape.tree.listing 0 = setting.shape.atoms.toList ∧
    (∃ after, tick.update setting =
        .ok ⟨.ok ((tick.scene setting).update tick.board).1, after⟩ ∧
      let scene := tick.scene setting
      let course := (scene.update tick.board).2
      after.calls = tick.calls ++ course.calls ∧
      after.board = course.board ∧
      after.actor.seed = course.seed ∧
      after.actor.continuations.entries = sortByKey course.continuations.toArray ∧
      after.actor.outstanding.entries = course.outstanding.toArray ∧
      after.actor.slots = scene.slotsAfter course.canceled ∧
      after.machine.requests.launches.toList = course.launches ∧
      after.machine.requests.cancels.toList = (scene.cancelRequests course.canceled).reverse) ∧
    ((tick.scene setting).Direct → ∀ index children,
      setting.shape.Holds index ((Tree.decider .sequence children).listing index) →
      children ≠ [] →
        ∃ passed rest, children = passed ++ rest ∧ rest ≠ [] ∧
          (tick.scene setting).start index (index + 1 + Forest.size children) =
            index + 1 + Forest.size passed ∧
          ∀ course, (Tree.decider .sequence children).interpret (tick.scene setting) index course =
            Forest.inTurn (tick.scene setting) index (index + 1 + Forest.size passed) rest
              ((course.drain (tick.scene setting)).enter index)) := by
  obtain ⟨after, completes, performs⟩ := fit.update_performs
  refine ⟨setting.shape.listing_tree, ⟨after, completes.complete_eq, performs.calls,
    performs.board, performs.seed, performs.continuations, performs.outstanding, performs.slots,
    performs.launches, performs.cancels⟩, ?_⟩
  intro direct index children holds used
  exact direct.sequence_eq holds used

/-- The sample is updated as its tree is interpreted. -/
theorem Tick.update_interprets_sample : Sample.tick.Fit Sample.setting ∧
    (Sample.tick.scene Sample.setting).Direct ∧
    ∃ after, Sample.tick.update Sample.setting = .ok ⟨.ok .running, after⟩ ∧
      after.calls = [⟨1, 0, .running, .running⟩] := by
  have direct : (Sample.tick.scene Sample.setting).Direct := by
    intro sequence stop stands child found
    cases found
  obtain ⟨-, ⟨after, updates, calls, -⟩, -⟩ :=
    update_interprets Sample.tick Sample.setting Sample.fit
  have result : ((Sample.tick.scene Sample.setting).update Sample.tick.board).1 = .running := by
    decide +kernel
  have called : Sample.tick.calls ++
      ((Sample.tick.scene Sample.setting).update Sample.tick.board).2.calls =
        [⟨1, 0, .running, .running⟩] := by
    decide +kernel
  refine ⟨Sample.fit, direct, after, ?_, ?_⟩
  · rw [updates, result]
  · rw [calls, called]

end BehaviorTree
