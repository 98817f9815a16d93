import BehaviorTree.Proofs.Course.Tidy
import BehaviorTree.Proofs.Course.Traces

namespace BehaviorTree
open Course
variable {β : Type} {scene : Scene β}

namespace Scene.Direct

/-- A decider is entered at one of its children. -/
theorem entrance_isChild (direct : scene.Direct) {rule : Rule} {children : List Tree} {index : Nat}
    (holds : scene.shape.Holds index ((Tree.decider rule children).listing index)) :
    let stop := index + 1 + Forest.size children
    scene.shape.IsChild index stop (scene.entrance index stop rule) ∧
      scene.shape.Closed index (scene.entrance index stop rule) := by
  obtain ⟨stands, below⟩ := Shape.holds_cons.mp holds
  have used := (scene.shape.has_child stands).1
  cases rule with
  | sequence =>
    have isChild := direct.start_isChild stands used
    obtain ⟨passed, split, start_eq⟩ := Forest.behind_of_mem_roots (isChild.mem_roots below)
    refine ⟨isChild, ?_⟩
    rw [split, Forest.listing_append, Shape.holds_append] at below
    rw [Scene.entrance, start_eq]
    exact (scene.shape.closed_succ index).append below.1
  | dynamicPriority | concurrent => exact ⟨.first used, scene.shape.closed_succ index⟩

end Scene.Direct

/-- Where a decider is entered at one of its children, all trees that it visits are children. -/
theorem Unfolds.invariant_children {rule : Rule} {span : Span} {entered after : Course β}
    {forest : List Tree} {passed : List (Turn β)} {last : Option (Turn β)} (ready : scene.Ready)
    (unfolds : Unfolds scene rule span entered forest passed last after)
    (entrance : scene.shape.IsChild span.start span.stop
        (scene.entrance span.start span.stop rule) ∧
      scene.shape.Closed span.start (scene.entrance span.start span.stop rule))
    {motive : Nat → Course β → List (Turn β) → Prop}
    (step : ∀ turn done, turn.Valid scene → turn.Within span →
      rule.goesOn (turn.status scene) = true →
      scene.shape.IsChild span.start span.stop turn.index →
      scene.shape.Closed span.start turn.index → motive turn.index turn.course done →
        motive turn.stop (turn.after scene) (done ++ [turn]))
    (first : motive (scene.entrance span.start span.stop rule) entered []) :
    (last = none → Sound scene span.stop after ∧ motive span.stop after passed) ∧
    ∀ turn, last = some turn → turn.Valid scene ∧ turn.Within span ∧
      rule.goesOn (turn.status scene) = false ∧ after = turn.after scene ∧
      scene.shape.IsChild span.start span.stop turn.index ∧
      scene.shape.Closed span.start turn.index ∧ motive turn.index turn.course passed := by
  obtain ⟨isChild, closed⟩ := entrance
  obtain ⟨passes, ends⟩ := unfolds.invariant ready
    (motive := fun index course done =>
      (index < span.stop → scene.shape.IsChild span.start span.stop index) ∧
        scene.shape.Closed span.start index ∧ motive index course done)
    (fun turn done valid within on ⟨child, closed, before⟩ => by
      have isChild := child (Nat.lt_of_lt_of_le turn.index_lt_stop within.2)
      refine ⟨fun more => ?_, closed.tree valid.holds,
        step turn done valid within on isChild closed before⟩
      rw [← valid.stopAt] at more ⊢
      exact isChild.next more)
    ⟨fun _ => isChild, closed, first⟩
  refine ⟨fun ended => ?_, fun turn found => ?_⟩
  · obtain ⟨sound, -, -, reached⟩ := passes ended
    exact ⟨sound, reached⟩
  · obtain ⟨valid, within, verdict, after_eq, child, closed, reached⟩ := ends turn found
    exact ⟨valid, within, verdict, after_eq,
      child (Nat.lt_of_lt_of_le turn.index_lt_stop within.2), closed, reached⟩

/-- Where a decider is entered at one of its children, what every turn of a child preserves holds
behind all turns, the last one included. -/
theorem Unfolds.afterTurns_children {rule : Rule} {span : Span} {entered after : Course β}
    {forest : List Tree} {passed : List (Turn β)} {last : Option (Turn β)} (ready : scene.Ready)
    (unfolds : Unfolds scene rule span entered forest passed last after)
    (entrance : scene.shape.IsChild span.start span.stop
        (scene.entrance span.start span.stop rule) ∧
      scene.shape.Closed span.start (scene.entrance span.start span.stop rule))
    {motive : Nat → Course β → List (Turn β) → Prop}
    (step : ∀ turn done, turn.Valid scene → turn.Within span →
      scene.shape.IsChild span.start span.stop turn.index →
      scene.shape.Closed span.start turn.index → motive turn.index turn.course done →
        motive turn.stop (turn.after scene) (done ++ [turn]))
    (first : motive (scene.entrance span.start span.stop rule) entered []) :
    ∃ index, index ≤ span.stop ∧ motive index after (passed ++ last.toList) := by
  obtain ⟨passes, ends⟩ := unfolds.invariant_children ready entrance
    (fun turn done valid within _ => step turn done valid within) first
  cases last with
  | none =>
    rw [Option.toList_none, List.append_nil]
    exact ⟨span.stop, Nat.le_refl _, (passes rfl).2⟩
  | some turn =>
    obtain ⟨valid, within, -, rfl, isChild, closed, before⟩ := ends turn rfl
    exact ⟨turn.stop, within.2, step turn passed valid within isChild closed before⟩

namespace Course
variable {before after : Course β} {parent stop index : Nat}

/-- What is kept between a decider and its end lies in one of its children. -/
def Single (scene : Scene β) (course : Course β) (parent stop : Nat) : Prop :=
  ∃ child, scene.shape.IsChild parent stop child ∧ ∀ entry, course.Keeps entry →
    parent < entry.atom → entry.atom < stop →
      child ≤ entry.atom ∧ entry.atom < scene.shape.stopAt child

/-- Where nothing is kept, it lies anywhere. -/
theorem single_of_before (used : parent + 1 < stop)
    (kept : ∀ entry, after.Keeps entry → entry.atom < index) (behind : index ≤ parent + 1) :
    after.Single scene parent stop := by
  refine ⟨parent + 1, .first used, fun entry keeps inside => ?_⟩
  have := kept entry keeps
  omega

/-- What is single stays so when more is given up. -/
theorem Single.mono (single : before.Single scene parent stop)
    (keeps : ∀ entry, entry.atom < stop → after.Keeps entry → before.Keeps entry) :
    after.Single scene parent stop := by
  obtain ⟨child, isChild, within⟩ := single
  exact ⟨child, isChild, fun entry kept inside until_ =>
    within entry (keeps entry until_ kept) inside until_⟩

/-- In each dynamic priority between two indices, what is kept lies in one child. -/
def Chosen (scene : Scene β) (course : Course β) (index later : Nat) : Prop :=
  ∀ parent stop, scene.shape.atom? parent = some (.decider .dynamicPriority stop) →
    index ≤ parent → parent < later → course.Single scene parent stop

namespace Chosen
variable {later : Nat}

/-- What is chosen stays so when more is given up. -/
theorem mono (chosen : before.Chosen scene index later)
    (keeps : ∀ entry, after.Keeps entry → before.Keeps entry) : after.Chosen scene index later :=
  fun parent stop stands behind until_ =>
    (chosen parent stop stands behind until_).mono fun entry _ => keeps entry

/-- Behind what is kept, nothing is left to choose. -/
theorem extend (chosen : after.Chosen scene index later)
    (kept : ∀ entry, after.Keeps entry → entry.atom < later) (last : Nat) :
    after.Chosen scene index last := by
  intro parent stop stands behind before
  rcases Nat.lt_or_ge parent later with within | beyond
  · exact chosen parent stop stands behind within
  · exact single_of_before (scene.shape.has_child stands).1 kept (Nat.le_succ_of_le beyond)

/-- Behind a visit, the dynamic priorities before and in the visited tree have chosen. -/
theorem trans {middle : Nat} {parent : Nat} (first : before.Chosen scene (parent + 1) middle)
    (second : after.Chosen scene middle later) (grows : Grows middle before after)
    (closed : scene.shape.Closed parent middle) : after.Chosen scene (parent + 1) later := by
  intro place stop stands behind until_
  rcases Nat.lt_or_ge place middle with passed | visited
  · have ended := closed place _ stop stands behind passed
    exact (first place stop stands behind passed).mono fun entry within =>
      (grows.keeps entry (Nat.lt_of_lt_of_le within ended)).mp
  · exact second place stop stands visited until_

end Chosen

end Course

/-- What a dynamic priority has chosen, and what its children have chosen, stays chosen. -/
theorem Unfolds.chosen {rule : Rule} {span : Span} {entered after : Course β} {forest : List Tree}
    {passed : List (Turn β)} {last : Option (Turn β)} (ready : scene.Ready)
    (unfolds : Unfolds scene rule span entered forest passed last after)
    (entrance : scene.shape.IsChild span.start span.stop
        (scene.entrance span.start span.stop rule) ∧
      scene.shape.Closed span.start (scene.entrance span.start span.stop rule))
    (sound : Sound scene span.start entered)
    (turns : ∀ turn : Turn β, turn.Valid scene → turn.Within span →
      (turn.after scene).Chosen scene turn.index turn.stop) :
    (rule.conclude scene span entered passed last after).2.Chosen scene span.start span.stop := by
  have before : ∀ entry, entered.Keeps entry → entry.atom < span.start :=
    fun entry keeps => sound.outstanding_lt keeps.1
  have used := (scene.shape.has_child unfolds.stands).1
  obtain ⟨passes, ends⟩ := unfolds.invariant_children ready entrance
    (motive := fun index course _ => course.Chosen scene (span.start + 1) index ∧
      (rule = .dynamicPriority → ∀ entry, course.Keeps entry → entry.atom < span.start))
    (fun turn done valid within on _ closed ⟨chosen, kept⟩ => by
      refine ⟨chosen.trans (turns turn valid within) (turn.grows scene) closed, ?_⟩
      rintro rfl entry keeps
      -- A child after which a dynamic priority goes on has failed.
      have failed := of_decide_eq_true on
      have spotless := (valid.traces ready).finished (by simp [failed, Status.isActive])
      exact kept rfl entry (((turn.grows scene).keeps entry (spotless.kept entry keeps)).mp keeps))
    ⟨fun parent stop stands behind until_ =>
      single_of_before (scene.shape.has_child stands).1 before (by omega), fun _ => before⟩
  suffices all : after.Chosen scene (span.start + 1) span.stop ∧
      (rule = .dynamicPriority → after.Single scene span.start span.stop) by
    refine Chosen.mono ?_ fun entry => Rule.keeps_of_conclude
    intro parent stop stands behind until_
    rcases Nat.eq_or_lt_of_le behind with rfl | inner
    · have same := unfolds.stands.symm.trans stands
      injection same with same
      injection same with rule_eq stop_eq
      exact stop_eq ▸ all.2 rule_eq
    · exact all.1 parent stop stands inner until_
  cases last with
  | none =>
    obtain ⟨-, chosen, kept⟩ := passes rfl
    exact ⟨chosen, fun priority => single_of_before used (kept priority) (Nat.le_succ _)⟩
  | some turn =>
    obtain ⟨valid, within, -, rfl, isChild, closed, chosen, kept⟩ := ends turn rfl
    have inside : ∀ entry, (turn.after scene).Keeps entry → entry.atom < turn.stop :=
      fun entry keeps => (valid.sound_after ready).outstanding_lt keeps.1
    refine ⟨(chosen.trans (turns turn valid within) (turn.grows scene) closed).extend inside _,
      fun priority => ⟨turn.index, isChild, fun entry keeps behind _ => ?_⟩⟩
    rw [valid.stopAt]
    refine ⟨?_, inside entry keeps⟩
    by_contra earlier
    have := kept priority entry
      (((turn.grows scene).keeps entry (Nat.lt_of_not_le earlier)).mp keeps)
    omega

/-- What is kept in a dynamic priority that has been visited lies in one of its children. -/
theorem Turn.Valid.chosen (ready : scene.Ready) (direct : scene.Direct) {turn : Turn β}
    (valid : turn.Valid scene) : (turn.after scene).Chosen scene turn.index turn.stop := by
  refine Turn.Valid.induction
    (motive := fun turn => (turn.after scene).Chosen scene turn.index turn.stop)
    (fun {leaf index course} valid => ?_) (fun {rule children index course} valid smaller => ?_)
    valid
  · intro parent stop stands behind before
    obtain rfl : index = parent := by
      simp only [Turn.stop, Tree.size] at before
      simp only at behind
      omega
    have leaf_stands := (Shape.holds_cons.mp valid.holds).1
    simp only [stands] at leaf_stands
    cases leaf <;> cases leaf_stands
  · obtain ⟨passed, last, after, unfolds, finish_eq⟩ := valid.unfolds ready
    have stop_eq : Turn.stop ⟨.decider rule children, index, course⟩ =
        index + 1 + Forest.size children := by
      rw [Turn.stop, Tree.size, Nat.add_assoc]
    rw [Turn.after, finish_eq, stop_eq]
    exact unfolds.chosen ready (direct.entrance_isChild valid.holds)
      { valid.sound.drain ready with } smaller

/-- What an update keeps in a dynamic priority lies in one of its children. -/
theorem Scene.chosen_update (ready : scene.Ready) (direct : scene.Direct) (board : β) :
    (scene.update board).2.Chosen scene 0 scene.shape.size := by
  have chosen := (scene.whole_valid board).chosen ready direct
  rw [stop_whole] at chosen
  exact chosen.mono fun entry => (keeps_drain _ entry).mp

end BehaviorTree
