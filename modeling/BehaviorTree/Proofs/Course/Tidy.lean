import BehaviorTree.Proofs.Course.Direct

namespace BehaviorTree
open Course
variable {β : Type} {scene : Scene β}

namespace Shape
variable {shape : Shape β}

/-- The deciders of a forest end within the forest. -/
theorem stop_le {index : Nat} {forest : List Tree}
    (holds : shape.Holds index (Forest.listing index forest)) {place stop : Nat} {rule : Rule}
    (stands : shape.atom? place = some (.decider rule stop)) (behind : index ≤ place)
    (before : place < index + Forest.size forest) : stop ≤ index + Forest.size forest := by
  induction total : Forest.size forest using Nat.strongRecOn generalizing index forest with
  | _ count ih =>
    subst total
    cases forest with
    | nil =>
      rw [Forest.size] at before
      omega
    | cons tree rest =>
      obtain ⟨here, later⟩ := holds_forest_cons.mp holds
      have used := tree.size_pos
      rw [Forest.size] at before ih ⊢
      rcases Nat.lt_or_ge place (index + tree.size) with within | beyond
      · rcases Nat.eq_or_lt_of_le behind with rfl | inside
        · have stop_eq : shape.stopAt index = stop := by rw [stopAt, stands]
          rw [stopAt_tree here] at stop_eq
          omega
        · cases tree with
          | action leaf =>
            rw [Tree.size] at within
            omega
          | decider rule children =>
            rw [Tree.size] at within ih ⊢
            have := ih (Forest.size children) (by omega) (holds_cons.mp here).2 inside (by omega) rfl
            omega
      · have := ih (Forest.size rest) (by omega) later beyond (by omega) rfl
        omega

/-- The deciders between two indices end there. -/
def Closed (shape : Shape β) (parent index : Nat) : Prop :=
  ∀ place rule stop, shape.atom? place = some (.decider rule stop) → parent < place →
    place < index → stop ≤ index

theorem closed_succ (shape : Shape β) (parent : Nat) : shape.Closed parent (parent + 1) := by
  intro place rule stop _ behind before
  omega

theorem Closed.append {parent index : Nat} {forest : List Tree} (closed : shape.Closed parent index)
    (holds : shape.Holds index (Forest.listing index forest)) :
    shape.Closed parent (index + Forest.size forest) := by
  intro place rule stop stands behind before
  rcases Nat.lt_or_ge place index with earlier | within
  · exact Nat.le_trans (closed place rule stop stands behind earlier) (Nat.le_add_right _ _)
  · exact stop_le holds stands within before

theorem Closed.tree {parent index : Nat} {tree : Tree} (closed : shape.Closed parent index)
    (holds : shape.Holds index (tree.listing index)) :
    shape.Closed parent (index + tree.size) := by
  have single : shape.Holds index (Forest.listing index [tree]) := by
    rwa [Forest.listing, Forest.listing, List.append_nil]
  have := closed.append single
  rwa [Forest.size, Forest.size, Nat.add_zero] at this

end Shape

namespace Course
variable {course before after : Course β}

/-- What is kept in the span of a sequence lies in the child that is recorded for it. -/
def Confined (scene : Scene β) (course : Course β) (sequence stop : Nat) : Prop :=
  ∀ entry, course.Keeps entry → sequence < entry.atom → entry.atom < stop →
    ∃ child, ⟨sequence, child⟩ ∈ course.continuations ∧ sequence < child ∧ child ≤ entry.atom ∧
      entry.atom < scene.shape.stopAt child

/-- Only direct children are recorded. -/
def Records (scene : Scene β) (course : Course β) : Prop :=
  ∀ entry ∈ course.continuations, ∀ stop,
    scene.shape.atom? entry.atom = some (.decider .sequence stop) →
      scene.shape.IsChild entry.atom stop entry.value

/-- Where nothing is kept behind an index, what begins there is confined. -/
theorem confined_of_before {index sequence stop : Nat}
    (kept : ∀ entry, course.Keeps entry → entry.atom < index) (behind : index ≤ sequence) :
    course.Confined scene sequence stop := by
  intro entry keeps inside
  have := kept entry keeps
  omega

/-- What is confined stays so when more is given up or recorded. -/
theorem Confined.mono {sequence stop : Nat} (confined : before.Confined scene sequence stop)
    (keeps : ∀ entry, entry.atom < stop → after.Keeps entry → before.Keeps entry)
    (records : before.continuations ⊆ after.continuations) :
    after.Confined scene sequence stop := by
  intro entry kept inside until_
  obtain ⟨child, recorded, within⟩ := confined entry (keeps entry until_ kept) inside until_
  exact ⟨child, records recorded, within⟩

/-- What comes later does not disturb a sequence that has ended. -/
theorem Confined.grows {sequence stop index : Nat} (confined : before.Confined scene sequence stop)
    (grows : Grows index before after) (ended : stop ≤ index) :
    after.Confined scene sequence stop := by
  obtain ⟨added, records, -⟩ := grows.continuations
  refine confined.mono (fun entry until_ => (grows.keeps entry (by omega)).mp) ?_
  rw [records]
  exact List.subset_append_left _ _

theorem Records.append (records : before.Records scene) {added : List (Entry Nat)}
    (appended : after.continuations = before.continuations ++ added)
    (more : ∀ entry ∈ added, ∀ stop,
      scene.shape.atom? entry.atom = some (.decider .sequence stop) →
        scene.shape.IsChild entry.atom stop entry.value) : after.Records scene := by
  intro entry member
  rw [appended] at member
  rcases List.mem_append.mp member with earlier | now
  · exact records entry earlier
  · exact more entry now

/-- What a node leaves: nothing, if it is not active, and in each of its sequences only what lies in
the recorded child. -/
structure Tidy (scene : Scene β) (index later : Nat) (status : Status) (course : Course β) :
    Prop where
  idle : status.isActive = false → ∀ entry, course.Keeps entry → entry.atom < index
  confined : ∀ sequence stop, scene.shape.atom? sequence = some (.decider .sequence stop) →
    index ≤ sequence → sequence < later → course.Confined scene sequence stop
  records : course.Records scene

/-- Where nothing is kept, all is tidy. -/
theorem tidy_of_before {index later : Nat} {status : Status} (records : course.Records scene)
    (kept : ∀ entry, course.Keeps entry → entry.atom < index) :
    course.Tidy scene index later status :=
  ⟨fun _ => kept, fun _ _ _ behind _ => confined_of_before kept behind, records⟩

end Course

namespace Course.Tidy
variable {index later : Nat} {status : Status} {before after : Course β}

/-- What is kept behind a node that is not active was kept before it. -/
theorem keeps_before (tidy : after.Tidy scene index later status)
    (grows : Grows index before after) (idle : status.isActive = false) {entry : Entry Status}
    (keeps : after.Keeps entry) : before.Keeps entry :=
  (grows.keeps entry (tidy.idle idle entry keeps)).mp keeps

/-- Behind a child of a decider, the sequences before, in and behind the child are confined. -/
theorem confined_after (tidy : after.Tidy scene index later status)
    (grows : Grows index before after) (sound : Sound scene later after) {decider : Nat}
    (closed : scene.shape.Closed decider index) {sequence stop : Nat}
    (stands : scene.shape.atom? sequence = some (.decider .sequence stop))
    (beyond : decider < sequence)
    (earlier : sequence < index → before.Confined scene sequence stop) :
    after.Confined scene sequence stop := by
  rcases Nat.lt_or_ge sequence index with passed | visited
  · exact (earlier passed).grows grows (closed sequence _ stop stands beyond passed)
  · rcases Nat.lt_or_ge sequence later with within | unvisited
    · exact tidy.confined sequence stop stands visited within
    · exact confined_of_before (fun entry keeps => sound.outstanding_lt keeps.1) unvisited

end Course.Tidy

namespace Forest

/-- Each smaller tree leaves a tidy course. -/
def AllTidy (scene : Scene β) (size : Nat) : Prop :=
  ∀ tree : Tree, tree.size ≤ size → tree.Proper → ∀ index course,
    scene.shape.Holds index (tree.listing index) → Sound scene index course →
      course.Records scene →
        (tree.interpret scene index course).2.Tidy scene index (index + tree.size)
          (tree.interpret scene index course).1

theorem AllTidy.mono {smaller larger : Nat} (trees : AllTidy scene larger)
    (less : smaller ≤ larger) : AllTidy scene smaller :=
  fun tree bounded => trees tree (Nat.le_trans bounded less)

theorem tidy_inTurn (ready : scene.Ready) {decider stop index : Nat} {forest : List Tree}
    (stands : scene.shape.atom? decider = some (.decider .sequence stop))
    (behind : decider < index) (end_eq : index + size forest = stop)
    (holds : scene.shape.Holds index (listing index forest)) (proper : Proper forest)
    (closed : scene.shape.Closed decider index)
    (child : forest ≠ [] → scene.shape.IsChild decider stop index)
    (trees : AllTidy scene (size forest)) {course : Course β} (sound : Sound scene index course)
    (records : course.Records scene) (kept : ∀ entry, course.Keeps entry → entry.atom < decider) :
    (inTurn scene decider index forest course).2.Tidy scene decider stop
      (inTurn scene decider index forest course).1 := by
  induction forest generalizing index course with
  | nil =>
    rw [inTurn]
    exact tidy_of_before records kept
  | cons tree rest ih =>
    obtain ⟨here, later⟩ := Shape.holds_forest_cons.mp holds
    have tidy := trees tree (size_le_first tree rest) proper.1 index course here sound records
    have sound_after := tree.sound_interpret ready here sound
    have grows := tree.grows scene index course
    have isChild := child (List.cons_ne_nil tree rest)
    have next_child : rest ≠ [] → scene.shape.IsChild decider stop (index + tree.size) :=
      isChild.behind here end_eq
    rw [size, ← Nat.add_assoc] at end_eq
    rw [inTurn]
    generalize tree.interpret scene index course = left at *
    have kept_idle (idle : left.1.isActive = false) :
        ∀ entry, left.2.Keeps entry → entry.atom < decider := by
      intro entry keeps
      exact kept entry (tidy.keeps_before grows idle keeps)
    by_cases success : left.1 = .success
    · simp only [if_pos success]
      exact ih (by omega) end_eq later proper.2 (closed.tree here) next_child
        (trees.mono (size_le_rest tree rest)) sound_after tidy.records
        (kept_idle (by rw [success]; rfl))
    · simp only [if_neg success]
      by_cases active : left.1.isActive = true
      · rw [if_pos active]
        refine ⟨fun idle => ?_, fun sequence other at_ reached inside => ?_, ?_⟩
        · rw [active] at idle
          cases idle
        · rcases Nat.eq_or_lt_of_le reached with rfl | beyond
          · intro entry keeps from_ until_
            refine ⟨index, List.mem_append_right _ List.mem_cons_self, behind, ?_, ?_⟩
            · rcases Nat.lt_or_ge entry.atom index with earlier | reached
              · have := kept entry ((grows.keeps entry earlier).mp keeps)
                omega
              · exact reached
            · rw [Shape.stopAt_tree here]
              exact sound_after.outstanding_lt keeps.1
          · have appended : left.2.continuations ⊆ (left.2.record decider index).continuations :=
              List.subset_append_left _ _
            exact (tidy.confined_after grows sound_after closed at_ beyond fun _ =>
              confined_of_before kept reached).mono (fun entry _ keeps => keeps) appended
        · apply tidy.records.append rfl
          intro entry member other at_
          obtain rfl := List.mem_singleton.mp member
          obtain rfl : stop = other := by
            have same := stands.symm.trans at_
            injection same with same
            injection same
          exact isChild
      · rw [if_neg active]
        exact tidy_of_before tidy.records (kept_idle (by simpa using active))

theorem tidy_dynamicPriority (ready : scene.Ready) {decider stop index : Nat} {forest : List Tree}
    (stands : scene.shape.atom? decider = some (.decider .dynamicPriority stop))
    (behind : decider < index) (end_eq : index + size forest = stop)
    (holds : scene.shape.Holds index (listing index forest)) (proper : Proper forest)
    (closed : scene.shape.Closed decider index) (trees : AllTidy scene (size forest))
    {course : Course β} (sound : Sound scene index course) (records : course.Records scene)
    (kept : ∀ entry, course.Keeps entry → entry.atom < decider) :
    (dynamicPriority scene stop index forest course).2.Tidy scene decider stop
      (dynamicPriority scene stop index forest course).1 := by
  induction forest generalizing index course with
  | nil =>
    rw [dynamicPriority]
    exact tidy_of_before records kept
  | cons tree rest ih =>
    obtain ⟨here, later⟩ := Shape.holds_forest_cons.mp holds
    have tidy := trees tree (size_le_first tree rest) proper.1 index course here sound records
    have sound_after := tree.sound_interpret ready here sound
    have grows := tree.grows scene index course
    rw [size, ← Nat.add_assoc] at end_eq
    rw [dynamicPriority_cons]
    generalize tree.interpret scene index course = left at *
    have kept_idle (idle : left.1.isActive = false) :
        ∀ entry, left.2.Keeps entry → entry.atom < decider := by
      intro entry keeps
      exact kept entry (tidy.keeps_before grows idle keeps)
    by_cases fail : left.1 = .fail
    · rw [if_pos fail]
      exact ih (by omega) end_eq later proper.2 (closed.tree here)
        (trees.mono (size_le_rest tree rest)) sound_after tidy.records
        (kept_idle (by rw [fail]; rfl))
    · rw [if_neg fail]
      refine ⟨fun idle entry keeps => kept_idle idle entry (keeps_of_abandon keeps),
        fun sequence other at_ reached inside => ?_, tidy.records⟩
      have shrinks (confined : left.2.Confined scene sequence other) :
          (left.2.abandon ⟨index + tree.size, stop⟩).Confined scene sequence other :=
        confined.mono (fun entry _ => keeps_of_abandon) (List.Subset.refl _)
      apply shrinks
      rcases Nat.eq_or_lt_of_le reached with rfl | beyond
      · rw [stands] at at_
        cases at_
      · exact tidy.confined_after grows sound_after closed at_ beyond fun _ =>
          confined_of_before kept reached

theorem tidy_concurrent (ready : scene.Ready) {span : Span} {aggregate : Status} {index : Nat}
    {forest : List Tree}
    (stands : scene.shape.atom? span.start = some (.decider .concurrent span.stop))
    (behind : span.start < index) (end_eq : index + size forest = span.stop)
    (holds : scene.shape.Holds index (listing index forest)) (proper : Proper forest)
    (closed : scene.shape.Closed span.start index) (trees : AllTidy scene (size forest))
    {entered course : Course β} (entered_records : entered.Records scene)
    (sound : Sound scene index course) (records : course.Records scene)
    (idle : aggregate.isActive = false →
      ∀ entry, course.Keeps entry → entry.atom < span.start)
    (confined : ∀ sequence stop, scene.shape.atom? sequence = some (.decider .sequence stop) →
      span.start ≤ sequence → sequence < index → course.Confined scene sequence stop) :
    (concurrent scene span entered aggregate index forest course).2.Tidy scene span.start span.stop
      (concurrent scene span entered aggregate index forest course).1 := by
  induction forest generalizing index course aggregate with
  | nil =>
    rw [concurrent]
    obtain rfl : index = span.stop := end_eq
    exact ⟨idle, confined, records⟩
  | cons tree rest ih =>
    obtain ⟨here, later⟩ := Shape.holds_forest_cons.mp holds
    have tidy := trees tree (size_le_first tree rest) proper.1 index course here sound records
    have sound_after := tree.sound_interpret ready here sound
    have grows := tree.grows scene index course
    rw [size, ← Nat.add_assoc] at end_eq
    rw [concurrent_cons]
    generalize tree.interpret scene index course = left at *
    by_cases fail : left.1 = .fail
    · rw [if_pos fail]
      have used := tree.size_pos
      exact tidy_of_before entered_records fun entry keeps =>
        ((keeps_abandon (by omega) entry).mp keeps).2
    · rw [if_neg fail]
      refine ih (by omega) end_eq later proper.2 (closed.tree here)
        (trees.mono (size_le_rest tree rest)) sound_after tidy.records ?_ ?_
      · intro inactive entry keeps
        by_cases active : left.1.isActive = true
        · rw [if_pos active] at inactive
          cases inactive
        · rw [if_neg active] at inactive
          rw [Bool.not_eq_true] at active
          exact idle inactive entry (tidy.keeps_before grows active keeps)
      · intro sequence stop at_ reached inside
        rcases Nat.eq_or_lt_of_le reached with rfl | beyond
        · rw [stands] at at_
          cases at_
        · exact tidy.confined_after grows sound_after closed at_ beyond
            (confined sequence stop at_ reached)

end Forest

namespace Course

/-- A visit of an action leaves an entry only if the action is active. -/
theorem tidy_visit {index : Nat} {leaf : Leaf} {course : Course β}
    (stands : scene.shape.atom? index = some leaf.atom)
    (before : ∀ entry ∈ course.outstanding, entry.atom < index) (records : course.Records scene) :
    (course.visit scene index leaf).2.Tidy scene index (index + 1)
      (course.visit scene index leaf).1 := by
  obtain ⟨status, added, entry, request, board, seed, delivers, visited⟩ :=
    course.visit_eq scene index leaf
  rw [visited]
  refine ⟨fun idle other keeps => ?_, fun sequence stop at_ reached inside => ?_, records⟩
  · obtain ⟨rfl, -⟩ := delivers.nothing_left idle
    obtain ⟨member, -⟩ := keeps
    exact before other (by simpa using member)
  · obtain rfl : index = sequence := by omega
    rw [stands] at at_
    cases leaf <;> cases at_

end Course

/-- The interpretation of a tree leaves a tidy course. -/
theorem Tree.tidy (ready : scene.Ready) (direct : scene.Direct) (tree : Tree) (proper : tree.Proper)
    (index : Nat) (course : Course β) (holds : scene.shape.Holds index (tree.listing index))
    (sound : Sound scene index course) (records : course.Records scene) :
    (tree.interpret scene index course).2.Tidy scene index (index + tree.size)
      (tree.interpret scene index course).1 := by
  induction tree using Tree.size_induction generalizing index course with
  | step tree ih =>
    have drained := sound.drain ready
    have before : ∀ entry ∈ (course.drain scene).outstanding, entry.atom < index :=
      fun entry member => drained.outstanding_lt member
    have drained_records : (course.drain scene).Records scene := by
      simpa [Course.Records] using records
    cases tree with
    | action leaf =>
      rw [interpret]
      exact tidy_visit (Shape.holds_cons.mp holds).1 before drained_records
    | decider rule children =>
      obtain ⟨stands, below⟩ := Shape.holds_cons.mp holds
      obtain ⟨used, proper⟩ := proper
      have entered := drained.enter stands
      have entered_records : ((course.drain scene).enter index).Records scene := drained_records
      have kept : ∀ entry, ((course.drain scene).enter index).Keeps entry → entry.atom < index :=
        fun entry keeps => before entry keeps.1
      have trees : Forest.AllTidy scene (Forest.size children) := by
        intro smaller less proper place started holds sound records
        refine ih smaller ?_ proper place started holds sound records
        rw [Tree.size]
        omega
      rw [Tree.size, ← Nat.add_assoc]
      cases rule with
      | sequence =>
        obtain ⟨passed, rest, rfl, more, start_eq, visits⟩ := direct.sequence_eq holds used
        rw [Forest.listing_append, Shape.holds_append, Forest.length_listing] at below
        have inside := below.2
        have size_pos := Forest.size_pos more
        have total := Forest.size_append passed rest
        have within := (holds.le_size : index + _ ≤ _)
        rw [Tree.size, total] at within
        have isChild := direct.start_isChild stands (by omega)
        rw [start_eq] at isChild
        rw [visits]
        exact Forest.tidy_inTurn ready stands (by omega) (by omega) inside
          ((Forest.proper_append passed rest).mp proper).2
          ((scene.shape.closed_succ index).append below.1) (fun _ => isChild)
          (trees.mono (by omega)) (entered.pass (by omega) (by omega)) entered_records kept
      | dynamicPriority =>
        rw [interpret]
        exact Forest.tidy_dynamicPriority ready stands (Nat.lt_succ_self index) rfl below proper
          (scene.shape.closed_succ index) trees entered entered_records kept
      | concurrent =>
        rw [interpret]
        have behind : (Span.mk index (index + 1 + Forest.size children)).start < index + 1 :=
          Nat.lt_succ_self index
        refine Forest.tidy_concurrent ready stands behind rfl below proper
          (scene.shape.closed_succ index) trees entered_records entered entered_records
          (fun _ => kept) ?_
        intro sequence stop at_ reached inside
        exact confined_of_before kept reached

/-- An update leaves a tidy course, in which nothing is given up any more. -/
theorem Scene.tidy_update (ready : scene.Ready) (direct : scene.Direct) (board : β) :
    (scene.update board).2.Tidy scene 0 scene.shape.size (scene.update board).1 ∧
      (scene.update board).2.pending.isEmpty = true := by
  have tidy := scene.shape.tree.tidy ready direct scene.shape.proper_tree 0 (scene.opening board)
    scene.shape.holds_tree (.opening scene board) (fun entry member => by cases member)
  rw [Nat.zero_add, Shape.size_tree] at tidy
  simp only [update]
  generalize scene.shape.tree.interpret scene 0 (scene.opening board) = left at *
  refine ⟨⟨fun idle entry keeps => tidy.idle idle entry ((keeps_drain left.2 entry).mp keeps),
    fun sequence stop at_ reached inside => ?_, ?_⟩, left.2.isEmpty_pending_drain scene⟩
  · refine (tidy.confined sequence stop at_ reached inside).mono
      (fun entry _ => (keeps_drain left.2 entry).mp) ?_
    rw [continuations_drain]
    exact List.Subset.refl _
  · simpa [Course.Records] using tidy.records

end BehaviorTree
