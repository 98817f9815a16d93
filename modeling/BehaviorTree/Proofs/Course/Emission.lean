import BehaviorTree.Proofs.Course.Room
import BehaviorTree.Proofs.Course.Turns
import BehaviorTree.Proofs.Ordered.Linear

namespace BehaviorTree
open Course Ordered
variable {β : Type} {scene : Scene β}

namespace Forest

/-- The trees from a start on are no deeper. -/
theorem depth_behind_le (start index : Nat) (forest : List Tree) :
    depth (behind start index forest) ≤ depth forest := by
  fun_induction behind start index forest with
  | case1 => exact Nat.le_refl _
  | case2 index leaf rest before ih => exact Nat.le_trans ih (Nat.le_max_right _ _)
  | case3 => exact Nat.le_refl _
  | case4 index rule children rest skipped ih => exact Nat.le_trans ih (Nat.le_max_right _ _)
  | case5 index rule children rest _ _ ih =>
    rw [depth_append, depth, Tree.depth]
    omega
  | case6 => exact Nat.le_refl _

end Forest

/-- The trees that are visited in turn are no deeper than their forest. -/
theorem Turns.depth_le {goesOn : Status → Bool} {index : Nat} {forest : List Tree}
    {course after : Course β} {passed : List (Turn β)} {last : Option (Turn β)}
    (turns : Turns scene goesOn index forest course passed last after) :
    ∀ turn ∈ passed ++ last.toList, turn.tree.depth ≤ Forest.depth forest := by
  induction turns with
  | empty =>
    intro turn member
    cases member
  | ends =>
    intro turn member
    obtain rfl := List.mem_singleton.mp member
    exact Nat.le_max_left _ _
  | next _ _ ih =>
    intro turn member
    rcases List.mem_cons.mp member with rfl | later
    · exact Nat.le_max_left _ _
    · exact Nat.le_trans (ih turn later) (Nat.le_max_right _ _)

namespace Course
variable {low middle high depth : Nat} {before between after : Course β}

/-- What is recorded from one moment to a later one is in post-order. -/
def Emits (low high depth : Nat) (before after : Course β) : Prop :=
  ∃ added, after.continuations = before.continuations ++ added ∧
    PostOrder low high depth (added.map Entry.atom)

namespace Emits

theorem refl (same : after.continuations = before.continuations) :
    Emits low high depth before after :=
  ⟨[], by rw [same, List.append_nil], .nil⟩

theorem mono (emits : Emits low high depth before after) {lower higher deeper : Nat}
    (below : lower ≤ low) (above : high ≤ higher) (deep : depth ≤ deeper) :
    Emits lower higher deeper before after := by
  obtain ⟨added, recorded, posts⟩ := emits
  exact ⟨added, recorded, posts.mono below above deep⟩

theorem trans (first : Emits low middle depth before between)
    (second : Emits middle high depth between after) (below : low ≤ middle)
    (above : middle ≤ high) : Emits low high depth before after := by
  obtain ⟨added, recorded, posts⟩ := first
  obtain ⟨more, recorded_more, posts_more⟩ := second
  refine ⟨added ++ more, by rw [recorded_more, recorded, List.append_assoc], ?_⟩
  rw [List.map_append]
  exact posts.append posts_more below above

/-- A sequence is recorded behind what is recorded within it. -/
theorem record (emits : Emits (low + 1) high depth before after) (used : low < high) (child : Nat) :
    Emits low high (depth + 1) before (after.record low child) := by
  obtain ⟨added, recorded, posts⟩ := emits
  refine ⟨added ++ [⟨low, child⟩], ?_, ?_⟩
  · rw [Course.record, recorded, List.append_assoc]
  · rw [List.map_append]
    exact posts.close used

end Emits

end Course

/-- What a decider concludes has been emitted in post-order, if that holds of each turn. -/
theorem Unfolds.emits {rule : Rule} {span : Span} {entered after : Course β} {forest : List Tree}
    {passed : List (Turn β)} {last : Option (Turn β)} {depth : Nat} (ready : scene.Ready)
    (unfolds : Unfolds scene rule span entered forest passed last after)
    (deep : Forest.depth forest ≤ depth)
    (turns : ∀ turn : Turn β, turn.Valid scene → turn.Within span →
      Emits turn.index turn.stop turn.tree.depth turn.course (turn.after scene)) :
    Emits span.start span.stop (depth + 1) entered
      (rule.conclude scene span entered passed last after).2 := by
  obtain ⟨index, index_le, -, emitted⟩ := unfolds.afterTurns ready
    (motive := fun index course done => span.start < index ∧
      ((∀ turn ∈ done, turn.tree.depth ≤ depth) →
        Emits (span.start + 1) index depth entered course))
    (fun turn done valid within ⟨behind, before⟩ => by
      refine ⟨Nat.lt_trans behind turn.index_lt_stop, fun shallow => ?_⟩
      obtain ⟨shallow, last⟩ := List.forall_mem_append.mp shallow
      have emits := turns turn valid within
      exact (before shallow).trans
        (emits.mono (Nat.le_refl _) (Nat.le_refl _) (last turn (List.mem_singleton_self turn)))
        behind (Nat.le_of_lt turn.index_lt_stop))
    ⟨unfolds.behind, fun _ => .refl rfl⟩
  have used : span.start < span.stop := Nat.lt_trans unfolds.behind unfolds.before
  have inner : Emits (span.start + 1) span.stop depth entered after :=
    (emitted fun turn member => Nat.le_trans (unfolds.turns.depth_le turn member) deep).mono
      (Nat.le_refl _) index_le (Nat.le_refl _)
  have outer : Emits span.start span.stop (depth + 1) entered after :=
    inner.mono (Nat.le_succ _) (Nat.le_refl _) (Nat.le_succ _)
  cases last with
  | none => cases rule <;> exact outer
  | some turn =>
    cases rule with
    | sequence =>
      simp only [Rule.conclude]
      split
      · exact inner.record used turn.index
      · exact outer
    | dynamicPriority => exact outer
    | concurrent => exact .refl rfl

/-- A tree emits in post-order what it records, nested no deeper than it is itself. -/
theorem Turn.Valid.emits (ready : scene.Ready) {turn : Turn β} (valid : turn.Valid scene) :
    Emits turn.index turn.stop turn.tree.depth turn.course (turn.after scene) := by
  refine Turn.Valid.induction
    (motive := fun turn =>
      Emits turn.index turn.stop turn.tree.depth turn.course (turn.after scene))
    (fun {leaf index course} valid => ?_)
    (fun {rule children index course} valid smaller => ?_) valid
  · obtain ⟨status, added, entry, request, board, seed, -, visited⟩ :=
      (course.drain scene).visit_eq scene index leaf
    apply Emits.refl
    simp only [Turn.after, Turn.finish, Tree.interpret, visited, continuations_drain]
  · obtain ⟨passed, last, after, unfolds, finish_eq⟩ := valid.unfolds ready
    obtain ⟨added, recorded, posts⟩ := unfolds.emits ready (Forest.depth_behind_le _ _ _) smaller
    refine ⟨added, ?_, ?_⟩
    · rw [Turn.after, finish_eq, recorded]
      simp [enter]
    · rw [Turn.stop, Tree.size, ← Nat.add_assoc, Tree.depth]
      exact posts

/-- What an update emits is nested no deeper than the frames reach. -/
theorem Scene.emits_update (ready : scene.Ready) (board : β) :
    PostOrder 0 scene.shape.size scene.shape.needs.frames
      (((scene.whole board).after scene).continuations.map Entry.atom) := by
  obtain ⟨added, recorded, posts⟩ := (scene.whole_valid board).emits ready
  have all : ((scene.whole board).after scene).continuations = added := recorded
  rw [all]
  rw [stop_whole] at posts
  exact posts.mono (Nat.le_refl 0) (Nat.le_refl _) scene.shape.depth_tree_le

/-- What is canceled can be put into order by a stack: between an atom and a smaller one that is
canceled later, nothing is left outstanding. -/
structure Course.Laminar (course : Course β) : Prop where
  sortable : Sortable course.canceled
  spared : ∀ high low, [high, low].Sublist course.canceled →
    ∀ entry ∈ course.outstanding, ¬(low < entry.atom ∧ entry.atom < high)

namespace Course.Laminar
variable {position : Nat} {course : Course β}

theorem opening (scene : Scene β) (board : β) : (scene.opening board).Laminar where
  sortable first dip last within := by simp [Scene.opening] at within
  spared high low within := by simp [Scene.opening] at within

/-- Nothing changes as long as nothing is canceled, and nothing is left outstanding before what has
been canceled. -/
theorem extend {after : Course β} (laminar : course.Laminar)
    (canceled : after.canceled = course.canceled)
    (added : ∀ entry ∈ after.outstanding, entry ∈ course.outstanding ∨
      ∀ atom ∈ course.canceled, atom < entry.atom) : after.Laminar := by
  refine ⟨by rw [canceled]; exact laminar.sortable, fun high low within entry member => ?_⟩
  rw [canceled] at within
  rcases added entry member with already | beyond
  · exact laminar.spared high low within entry already
  · have := beyond high (within.mem List.mem_cons_self)
    omega

theorem drain (ready : scene.Ready) (sound : Sound scene position course)
    (laminar : course.Laminar) : (course.drain scene).Laminar := by
  by_cases empty : course.pending.isEmpty = true
  · rw [drain_of_isEmpty scene empty]
    exact laminar
  rw [Bool.not_eq_true] at empty
  obtain ⟨board, seed, calls, drained⟩ := drain_eq scene empty
  have falls : (course.toCancel scene).Pairwise (· > ·) :=
    pairwise_toCancel ready sound.ascending fun entry member => (sound.outstanding entry member).1
  -- What is canceled now was passed by, and lies beyond all that was canceled, or was spared.
  have behind (atom : Nat) (now : atom ∈ course.toCancel scene) :
      (∀ earlier ∈ course.canceled, earlier < atom) ∨
        ∃ entry ∈ course.outstanding, entry.atom = atom ∧ course.pending.start ≤ atom := by
    rcases (mem_toCancel ready atom).mp now with ⟨-, ahead, -⟩ | ⟨entry, held, same, start, -⟩
    · refine Or.inl fun earlier member => ?_
      have := (sound.canceled earlier member).1
      omega
    · exact Or.inr ⟨entry, held, same, start⟩
  rw [drained]
  refine ⟨fun first dip last within less => ?_, fun high low within entry member between => ?_⟩
  · rcases triple_sublist_append within with within | ⟨before, now⟩ | ⟨-, now⟩ | now
    · exact laminar.sortable first dip last within less
    · rcases behind last now with beyond | ⟨entry, held, same, -⟩
      · exact beyond first (before.mem List.mem_cons_self)
      · by_contra above
        have apart := (List.nodup_append.mp sound.single).2.2 first
          (before.mem List.mem_cons_self) entry.atom (List.mem_map_of_mem held)
        exact laminar.spared first dip before entry held ⟨by omega, by omega⟩
    · -- The dip is canceled by the same drain as the last atom, and so lies above it.
      have := List.pairwise_pair.mp (falls.sublist now)
      omega
    · have := List.pairwise_pair.mp (falls.sublist ((List.sublist_cons_self first _).trans now))
      omega
  · obtain ⟨held, below⟩ := List.mem_filter.mp member
    rw [decide_eq_true_eq] at below
    have start (now : low ∈ course.toCancel scene) : course.pending.start ≤ low := by
      rcases (mem_toCancel ready low).mp now with ⟨covered, -⟩ | ⟨_, -, -, start, -⟩
      · exact ((course.pending.contains_iff low).mp covered).1
      · exact start
    rcases pair_sublist_append within with within | ⟨-, now⟩ | now
    · exact laminar.spared high low within entry held between
    · have := start now
      omega
    · have := start (now.mem (by simp))
      omega

/-- Every move of a sound course keeps what is canceled in such an order. -/
theorem move (ready : scene.Ready) {quiet : Nat → Prop} {later : Nat} {after : Course β}
    (move : Move scene quiet position course later after) (sound : Sound scene position course)
    (laminar : course.Laminar) : after.Laminar := by
  cases move with
  | drain => exact laminar.drain ready sound
  | @visit _ _ leaf =>
    obtain ⟨status, added, entry, request, board, seed, -, visited⟩ :=
      course.visit_eq scene position leaf
    rw [visited]
    refine extend laminar ?_ ?_
    · rfl
    intro other member
    rcases List.mem_append.mp member with already | now
    · exact Or.inl already
    · obtain ⟨value, -, rfl⟩ := List.mem_map.mp now
      exact Or.inr fun atom canceled => sound.canceled_lt canceled
  | enter | pass | record | abandon | fail => exact laminar.extend rfl fun _ member => Or.inl member

/-- A run of moves keeps what is canceled in such an order. -/
theorem reaches (ready : scene.Ready) {quiet : Nat → Prop} {later : Nat} {after : Course β}
    (reaches : Reaches scene quiet position course later after)
    (sound : Sound scene position course) (laminar : course.Laminar) : after.Laminar :=
  sound.invariant ready (fun _ _ _ _ last sound laminar => Laminar.move ready last sound laminar)
    reaches laminar

end Course.Laminar

/-- The changes of slots can be put into order by a stack, and so by storage for all of them. -/
theorem Course.Laminar.slotChanges {position : Nat} {course : Course β} (laminar : course.Laminar)
    (sound : Sound scene position course) :
    ((scene.slotChanges course.canceled).map Entry.atom).Nodup ∧
      Sortable ((scene.slotChanges course.canceled).map Entry.atom) ∧
      ∀ rest, rest <:+ (scene.slotChanges course.canceled).map Entry.atom →
        (minima rest).length ≤ scene.shape.needs.slotChanges := by
  have atoms : (scene.slotChanges course.canceled).map Entry.atom =
      course.canceled.filter fun atom => (scene.shape.atom? atom).any Atom.isPersistent := by
    rw [Scene.slotChanges, List.map_map]
    exact List.map_id _
  have room := sound.slotChanges_le
  rw [← List.length_map Entry.atom] at room
  refine ⟨?_, ?_, fun rest suffix => ?_⟩
  · rw [atoms]
    exact (List.nodup_append.mp sound.single).1.filter _
  · rw [atoms]
    exact laminar.sortable.sublist List.filter_sublist
  · exact Nat.le_trans ((minima_sublist rest).trans suffix.sublist).length_le room

end BehaviorTree
