import BehaviorTree.Proofs.Course.Choice
import BehaviorTree.Proofs.Course.Tour

namespace BehaviorTree
open Course
variable {β : Type} {scene : Scene β} {shape : Shape β}

/-- In a story a sequence is left active, with the status that one of its children has delivered. -/
def LeftAt (shape : Shape β) (story : List Happening) (sequence stop child : Nat) : Prop :=
  shape.IsChild sequence stop child ∧ ∃ status : Status, status.isActive = true ∧
    .left child status ∈ story ∧ .left sequence status ∈ story

/-- In a story a concurrent decider around a node fails. -/
def RolledBack (shape : Shape β) (story : List Happening) (index : Nat) : Prop :=
  ∃ decider stop, shape.atom? decider = some (.decider .concurrent stop) ∧ decider < index ∧
    index < stop ∧ .left decider .fail ∈ story

namespace Shape

theorem lt_stopAt (shape : Shape β) (index : Nat) : index < shape.stopAt index := by
  unfold stopAt
  split
  · next stands =>
    have := shape.has_child stands
    omega
  all_goals exact Nat.lt_succ_self index

namespace IsChild
variable {parent stop child other : Nat}

theorem within (isChild : shape.IsChild parent stop child) : parent < child ∧ child < stop := by
  induction isChild with
  | first inside => exact ⟨Nat.lt_succ_self parent, inside⟩
  | next _ inside ih => exact ⟨Nat.lt_trans ih.1 (shape.lt_stopAt _), inside⟩

/-- A child ends before the next one. -/
theorem stopAt_le (isChild : shape.IsChild parent stop child)
    (another : shape.IsChild parent stop other) (less : child < other) :
    shape.stopAt child ≤ other := by
  induction another generalizing child with
  | first =>
    have := isChild.within
    omega
  | @next before earlier inside ih =>
    rcases Nat.lt_trichotomy child before with smaller | rfl | larger
    · exact Nat.le_trans (ih isChild smaller) (Nat.le_of_lt (shape.lt_stopAt before))
    · exact Nat.le_refl _
    · -- Behind the child before it, this one is the next.
      have reached : shape.stopAt before ≤ child := by
        clear less
        induction isChild with
        | first =>
          have := earlier.within
          omega
        | @next former isChild inside behind =>
          rcases Nat.lt_trichotomy former before with smaller | rfl | between
          · have := ih isChild smaller
            omega
          · exact Nat.le_refl _
          · exact Nat.le_trans (behind between) (Nat.le_of_lt (shape.lt_stopAt former))
      omega

/-- Within a child there is no other one. -/
theorem eq_of_within (isChild : shape.IsChild parent stop child)
    (another : shape.IsChild parent stop other) (from_ : child ≤ other)
    (before : other < shape.stopAt child) : other = child := by
  rcases Nat.eq_or_lt_of_le from_ with same | less
  · exact same.symm
  · have := isChild.stopAt_le another less
    omega

end IsChild

end Shape

/-- What happens between a sequence and its end decides where it is left. -/
theorem leftAt_congr {story other : List Happening} {sequence stop child : Nat}
    (same : ∀ index, sequence ≤ index → index < stop → ∀ status,
      .left index status ∈ story ↔ .left index status ∈ other) :
    LeftAt shape story sequence stop child ↔ LeftAt shape other sequence stop child := by
  apply and_congr_right
  intro isChild
  obtain ⟨behind, before⟩ := isChild.within
  simp only [same child (Nat.le_of_lt behind) before,
    same sequence (Nat.le_refl _) (Nat.lt_trans behind before)]

/-- What happens to the concurrent deciders around a node decides whether it is rolled back. -/
theorem rolledBack_congr {story other : List Happening} {index : Nat}
    (same : ∀ decider stop, shape.atom? decider = some (.decider .concurrent stop) →
      decider < index → index < stop →
        (.left decider .fail ∈ story ↔ .left decider .fail ∈ other)) :
    RolledBack shape story index ↔ RolledBack shape other index := by
  apply exists_congr
  intro decider
  apply exists_congr
  intro stop
  constructor
  · rintro ⟨stands, before, inside, failed⟩
    exact ⟨stands, before, inside, (same decider stop stands before inside).mp failed⟩
  · rintro ⟨stands, before, inside, failed⟩
    exact ⟨stands, before, inside, (same decider stop stands before inside).mpr failed⟩

namespace Course
variable {before after course : Course β} {parent index middle : Nat}
  {story front back : List Happening}

/-- From an index on, the course has recorded where the sequences of a story are left that are not
rolled back. -/
def Recorded (scene : Scene β) (index : Nat) (story : List Happening) (course : Course β) : Prop :=
  ∀ sequence stop, scene.shape.atom? sequence = some (.decider .sequence stop) →
    index ≤ sequence → ∀ child, ⟨sequence, child⟩ ∈ course.continuations ↔
      LeftAt scene.shape story sequence stop child ∧ ¬RolledBack scene.shape story sequence

namespace Recorded

/-- What is told of later nodes adds to what is told of those before them. -/
theorem trans (first : before.Recorded scene (parent + 1) front)
    (second : after.Recorded scene middle back) (grows : Grows middle before after)
    (closed : scene.shape.Closed parent middle)
    (earlier : ∀ happening ∈ front, parent < happening.atom ∧ happening.atom < middle)
    (later : ∀ happening ∈ back, middle ≤ happening.atom) :
    after.Recorded scene (parent + 1) (front ++ back) := by
  obtain ⟨added, added_eq, added_from⟩ := grows.continuations
  have in_front (place : Nat) (passed : place < middle) (status : Status) :
      .left place status ∈ front ++ back ↔ .left place status ∈ front := by
    rw [List.mem_append, or_iff_left]
    intro member
    exact absurd passed (Nat.not_lt.mpr (later _ member))
  have in_back (place : Nat) (reached : middle ≤ place) (status : Status) :
      .left place status ∈ front ++ back ↔ .left place status ∈ back := by
    rw [List.mem_append, or_iff_right]
    intro member
    exact absurd reached (Nat.not_le.mpr (earlier _ member).2)
  intro sequence stop stands reached child
  rcases Nat.lt_or_ge sequence middle with passed | visited
  · have ended := closed sequence _ stop stands reached passed
    rw [leftAt_congr fun place _ inside => in_front place (Nat.lt_of_lt_of_le inside ended),
      rolledBack_congr fun place _ _ less _ => in_front place (Nat.lt_trans less passed) _,
      ← first sequence stop stands reached child, added_eq, List.mem_append, or_iff_left]
    intro now
    exact absurd passed (Nat.not_lt.mpr (added_from _ now))
  · rw [leftAt_congr fun place from_ _ => in_back place (Nat.le_trans visited from_),
      rolledBack_congr ?_, ← second sequence stop stands visited child]
    intro decider until_ concurrent _ inside
    rw [List.mem_append, or_iff_right]
    intro member
    obtain ⟨behind, before⟩ := earlier _ member
    have := closed decider _ until_ concurrent behind before
    omega

/-- What happens to a decider itself does not matter to the sequences in it, unless it is a
concurrent one that fails. -/
theorem around {rule : Rule} {stop : Nat}
    (recorded : course.Recorded scene (parent + 1) story) (status : Status)
    (stands : scene.shape.atom? parent = some (.decider rule stop))
    (spared : rule = .concurrent → status ≠ .fail) :
    course.Recorded scene (parent + 1) (.entered parent :: story ++ [.left parent status]) := by
  have other (place : Nat) (different : place ≠ parent) (status' : Status) :
      .left place status' ∈ .entered parent :: story ++ [.left parent status] ↔
        .left place status' ∈ story := by
    simp [different]
  intro sequence _ sequential reached child
  rw [leftAt_congr fun place from_ _ => other place (by omega), rolledBack_congr ?_]
  · exact recorded sequence _ sequential reached child
  · intro decider until_ concurrent _ _
    by_cases same : decider = parent
    · subst same
      rw [stands] at concurrent
      obtain ⟨rfl, -⟩ : rule = .concurrent ∧ stop = until_ := by simpa using concurrent
      simp [(spared rfl).symm]
    · exact other decider same .fail

/-- Where a decider that is no sequence begins, nothing is recorded. -/
theorem of_succ {rule : Rule} {stop : Nat} (recorded : course.Recorded scene (parent + 1) story)
    (stands : scene.shape.atom? parent = some (.decider rule stop))
    (different : rule ≠ .sequence) : course.Recorded scene parent story := by
  intro sequence until_ sequential reached child
  apply recorded sequence until_ sequential
  apply Nat.lt_of_le_of_ne reached
  rintro rfl
  rw [stands] at sequential
  obtain ⟨rfl, -⟩ : rule = .sequence ∧ stop = until_ := by simpa using sequential
  exact different rfl

end Recorded

/-- In the midst of a decider, the course has recorded what is told of the children so far. -/
structure Tells (scene : Scene β) (parent index : Nat) (story : List Happening)
    (course : Course β) : Prop where
  recorded : course.Recorded scene (parent + 1) story
  within : ∀ happening ∈ story, parent < happening.atom ∧ happening.atom < index
  unrecorded : ∀ entry ∈ course.continuations, entry.atom ≠ parent

end Course

namespace Turn
variable {turn : Turn β} {parent : Nat} {story : List Happening}

/-- A child has its turn. -/
theorem tells (ready : scene.Ready) (valid : turn.Valid scene)
    (tells : turn.course.Tells scene parent turn.index story)
    (closed : scene.shape.Closed parent turn.index) (behind : parent < turn.index)
    (recorded : (turn.after scene).Recorded scene turn.index (turn.tour scene)) :
    (turn.after scene).Tells scene parent turn.stop (story ++ turn.tour scene) := by
  have within := valid.tour_within ready
  refine ⟨tells.recorded.trans recorded (turn.grows scene) closed tells.within
    fun happening member => (within happening member).1, fun happening member => ?_,
    (turn.grows scene).unrecorded behind tells.unrecorded⟩
  rcases List.mem_append.mp member with earlier | now
  · obtain ⟨from_, before⟩ := tells.within happening earlier
    exact ⟨from_, Nat.lt_trans before turn.index_lt_stop⟩
  · obtain ⟨from_, before⟩ := within happening now
    exact ⟨Nat.lt_of_lt_of_le behind from_, before⟩

/-- On its tour the root is left only with what it delivers. -/
theorem Valid.status_of_left (ready : scene.Ready) (valid : turn.Valid scene) {status : Status}
    (member : .left turn.index status ∈ turn.tour scene) : status = turn.status scene := by
  obtain ⟨tree, index, course⟩ := turn
  cases tree with
  | action leaf => simpa [tour, Tree.tour, Turn.status, finish] using member
  | decider rule children =>
    obtain ⟨passed, last, after, unfolds, -, tour_eq⟩ := valid.tours ready
    rw [tour_eq] at member
    rcases List.mem_append.mp member with first | last
    · rcases List.mem_cons.mp first with entered | child
      · cases entered
      · obtain ⟨turn, having, told⟩ := List.mem_flatMap.mp child
        obtain ⟨valid, within⟩ := unfolds.valid_of_mem ready turn having
        have from_ : turn.index ≤ index := (valid.tour_within ready _ told).1
        exact absurd within.1 (Nat.not_lt.mpr from_)
    · exact (Happening.left.inj (List.mem_singleton.mp last)).2

end Turn

namespace Unfolds
variable {rule : Rule} {span : Span} {entered after : Course β} {forest : List Tree}
  {passed : List (Turn β)} {last : Option (Turn β)} (ready : scene.Ready)
  (unfolds : Unfolds scene rule span entered forest passed last after)
  (entrance : scene.shape.IsChild span.start span.stop
      (scene.entrance span.start span.stop rule) ∧
    scene.shape.Closed span.start (scene.entrance span.start span.stop rule))
include ready unfolds entrance

/-- The turns are turns of children. -/
theorem isChild_of_mem :
    ∀ turn ∈ passed ++ last.toList, scene.shape.IsChild span.start span.stop turn.index := by
  obtain ⟨-, -, all⟩ := unfolds.afterTurns_children ready entrance
    (motive := fun _ _ done =>
      ∀ turn ∈ done, scene.shape.IsChild span.start span.stop turn.index)
    (fun turn done _ _ isChild _ before => by
      rw [List.forall_mem_append]
      exact ⟨before, List.forall_mem_singleton.mpr isChild⟩)
    (fun turn member => by cases member)
  exact all

/-- Once all children have had their turns, the course has recorded what is told of them. -/
theorem tells (sound : Sound scene span.start entered)
    (turns : ∀ turn : Turn β, turn.Valid scene → turn.Within span →
      (turn.after scene).Recorded scene turn.index (turn.tour scene)) :
    after.Tells scene span.start span.stop
      ((passed ++ last.toList).flatMap fun turn => turn.tour scene) := by
  have opening : entered.Tells scene span.start (scene.entrance span.start span.stop rule) [] := by
    refine ⟨fun sequence stop _ reached child => ?_, fun happening member => (by cases member),
      sound.unrecorded (Nat.le_refl _)⟩
    constructor
    · intro member
      have : sequence < span.start := (sound.continuations _ member).1
      omega
    · rintro ⟨⟨-, status, -, member, -⟩, -⟩
      cases member
  obtain ⟨reached, inside, told⟩ := unfolds.afterTurns_children ready entrance
    (motive := fun index course done =>
      course.Tells scene span.start index (done.flatMap fun turn => turn.tour scene))
    (fun turn done valid within _ closed before => by
      rw [List.flatMap_append, List.flatMap_singleton]
      exact turn.tells ready valid before closed within.1 (turns turn valid within))
    opening
  exact { told with within := fun happening member =>
    ⟨(told.within happening member).1,
      Nat.lt_of_lt_of_le (told.within happening member).2 inside⟩ }

end Unfolds

namespace Unfolds
variable {span : Span} {entered after : Course β} {forest : List Tree} {passed : List (Turn β)}
  {last : Option (Turn β)}

/-- A sequence is left active at its last child, if that is active. -/
theorem leftAt_iff (ready : scene.Ready)
    (unfolds : Unfolds scene .sequence span entered forest passed last after)
    (entrance : scene.shape.IsChild span.start span.stop
        (scene.entrance span.start span.stop .sequence) ∧
      scene.shape.Closed span.start (scene.entrance span.start span.stop .sequence))
    {story : List Happening}
    (story_eq : story = (passed ++ last.toList).flatMap fun turn => turn.tour scene)
    (child : Nat) :
    LeftAt scene.shape (.entered span.start :: story ++
        [.left span.start (Rule.sequence.conclude scene span entered passed last after).1])
        span.start span.stop child ↔
      ∃ turn, last = some turn ∧ (turn.status scene).isActive = true ∧ child = turn.index := by
  constructor
  · rintro ⟨isChild, status, active, left, -⟩
    have different : child ≠ span.start := Nat.ne_of_gt isChild.within.1
    have told : .left child status ∈ story := by simpa [different] using left
    rw [story_eq] at told
    obtain ⟨turn, having, told⟩ := List.mem_flatMap.mp told
    obtain ⟨valid, -⟩ := unfolds.valid_of_mem ready turn having
    obtain ⟨from_, before⟩ := valid.tour_within ready _ told
    obtain rfl : child = turn.index := by
      apply (unfolds.isChild_of_mem ready entrance turn having).eq_of_within isChild from_
      rw [valid.stopAt]
      exact before
    rw [valid.status_of_left ready told] at active
    rcases List.mem_append.mp having with earlier | final
    · have idle := Rule.idle_of_goesOn Rule.noConfusion (unfolds.turns.goesOn_of_mem turn earlier)
      rw [active] at idle
      cases idle
    · exact ⟨turn, Option.mem_toList.mp final, active, rfl⟩
  · rintro ⟨turn, rfl, active, rfl⟩
    have having : turn ∈ passed ++ (some turn).toList := by simp
    have told : .left turn.index (turn.status scene) ∈ story := by
      rw [story_eq]
      exact List.mem_flatMap.mpr ⟨turn, having, turn.left_mem_tour scene⟩
    refine ⟨unfolds.isChild_of_mem ready entrance turn having, _, active, ?_, ?_⟩
    · exact List.mem_append_left _ (List.mem_cons_of_mem _ told)
    · simp [Rule.conclude]

/-- When a decider concludes, the course has recorded what is told of it and its children. -/
theorem recorded {rule : Rule} (ready : scene.Ready)
    (unfolds : Unfolds scene rule span entered forest passed last after)
    (entrance : scene.shape.IsChild span.start span.stop
        (scene.entrance span.start span.stop rule) ∧
      scene.shape.Closed span.start (scene.entrance span.start span.stop rule))
    (sound : Sound scene span.start entered)
    (turns : ∀ turn : Turn β, turn.Valid scene → turn.Within span →
      (turn.after scene).Recorded scene turn.index (turn.tour scene)) :
    (rule.conclude scene span entered passed last after).2.Recorded scene span.start
      (.entered span.start :: (passed ++ last.toList).flatMap (fun turn => turn.tour scene) ++
        [.left span.start (rule.conclude scene span entered passed last after).1]) := by
  have told := unfolds.tells ready entrance sound turns
  have stands := unfolds.stands
  obtain ⟨story, story_eq⟩ : ∃ story, story =
      (passed ++ last.toList).flatMap fun turn => turn.tour scene := ⟨_, rfl⟩
  rw [← story_eq] at told ⊢
  cases rule with
  | sequence =>
    intro sequence stop sequential reached child
    rcases Nat.eq_or_lt_of_le reached with rfl | inside
    · rw [stands] at sequential
      obtain rfl : span.stop = stop := by simpa using sequential
      have spared : ¬RolledBack scene.shape (.entered span.start :: story ++
          [.left span.start (Rule.sequence.conclude scene span entered passed last after).1])
          span.start := by
        rintro ⟨decider, -, -, before, -, failed⟩
        have member : .left decider .fail ∈ story := by
          simpa [Nat.ne_of_lt before] using failed
        exact absurd before (Nat.lt_asymm (told.within _ member).1)
      rw [and_iff_left spared, unfolds.leftAt_iff ready entrance story_eq]
      have fresh : ⟨span.start, child⟩ ∉ after.continuations :=
        fun member => told.unrecorded _ member rfl
      cases last with
      | none => simp [Rule.conclude, fresh]
      | some turn =>
        by_cases active : (turn.status scene).isActive = true
        · simp [Rule.conclude, active, record, fresh]
        · simp [Rule.conclude, active, fresh]
    · have others := told.recorded.around
        (Rule.sequence.conclude scene span entered passed last after).1 stands Rule.noConfusion
        sequence stop sequential inside child
      rw [← others]
      cases last with
      | none => rfl
      | some turn =>
        by_cases active : (turn.status scene).isActive = true
        · simp [Rule.conclude, active, record, Nat.ne_of_gt inside]
        · simp [Rule.conclude, active]
  | dynamicPriority =>
    have around := (told.recorded.around
      (Rule.dynamicPriority.conclude scene span entered passed last after).1 stands
      Rule.noConfusion).of_succ stands Rule.noConfusion
    cases last <;> exact around
  | concurrent =>
    cases last with
    | none =>
      apply (told.recorded.around _ stands fun _ => ?_).of_succ stands Rule.noConfusion
      simp only [Rule.conclude]
      split <;> exact Status.noConfusion
    | some turn =>
      -- All that has been recorded is taken back, and all sequences are rolled back.
      intro sequence stop sequential reached child
      have behind : span.start < sequence := by
        apply Nat.lt_of_le_of_ne reached
        rintro rfl
        rw [stands] at sequential
        cases sequential
      constructor
      · intro member
        have : sequence < span.start := (sound.continuations _ member).1
        omega
      · rintro ⟨⟨-, status, -, -, left⟩, spared⟩
        have member : .left sequence status ∈ story := by
          simpa [Nat.ne_of_gt behind] using left
        exact absurd ⟨span.start, span.stop, stands, behind, (told.within _ member).2,
          by simp [Rule.conclude]⟩ spared

end Unfolds

/-- What the visit of a node has recorded is what is told of the node. -/
theorem Turn.Valid.recorded (ready : scene.Ready) (direct : scene.Direct) {turn : Turn β}
    (valid : turn.Valid scene) :
    (turn.after scene).Recorded scene turn.index (turn.tour scene) := by
  refine Turn.Valid.induction
    (motive := fun turn => (turn.after scene).Recorded scene turn.index (turn.tour scene))
    (fun {leaf index course} valid => ?_) (fun {rule children index course} valid smaller => ?_)
    valid
  · have stands := (Shape.holds_cons.mp valid.holds).1
    intro sequence stop sequential reached child
    have different : sequence ≠ index := by
      rintro rfl
      rw [stands] at sequential
      cases leaf <;> cases sequential
    constructor
    · intro member
      obtain ⟨status, added, entry, request, board, seed, -, visits⟩ :=
        (course.drain scene).visit_eq scene index leaf
      have member : ⟨sequence, child⟩ ∈ course.continuations := by
        simpa [Turn.after, Turn.finish, Tree.interpret, visits] using member
      have : sequence < index := (valid.sound.continuations _ member).1
      have : index ≤ sequence := reached
      omega
    · rintro ⟨⟨-, status, -, -, left⟩, -⟩
      simp [Turn.tour, Tree.tour, different] at left
  · obtain ⟨passed, last, after, unfolds, finish_eq, tour_eq⟩ := valid.tours ready
    have drained := valid.sound.drain ready
    rw [tour_eq, Turn.status, Turn.after, finish_eq]
    exact unfolds.recorded ready (direct.entrance_isChild valid.holds) { drained with } smaller

/-- What an update leaves recorded is what is told of it. -/
theorem Scene.recorded_update (ready : scene.Ready) (direct : scene.Direct) (board : β) :
    (scene.update board).2.Recorded scene 0 ((scene.whole board).tour scene) := by
  intro sequence stop sequential reached child
  rw [update_eq, continuations_drain]
  exact (scene.whole_valid board).recorded ready direct sequence stop sequential reached child

end BehaviorTree
