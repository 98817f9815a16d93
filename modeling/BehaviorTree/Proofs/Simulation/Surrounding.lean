import BehaviorTree.Proofs.Course.Recorded
import BehaviorTree.Proofs.Simulation.Absorption

namespace BehaviorTree
variable {β : Type} {shape : Shape β}

namespace Shape
variable {parent stop child : Nat} {rule : Rule}

/-- The deciders around a node, from the root down. -/
def around (shape : Shape β) (node : Nat) : List Nat :=
  (List.range node).filter fun decider => decide (node < shape.stopAt decider)

theorem mem_around {node decider : Nat} :
    decider ∈ shape.around node ↔ decider < node ∧ node < shape.stopAt decider := by
  rw [around, List.mem_filter, List.mem_range, decide_eq_true_eq]

theorem stopAt_decider (stands : shape.atom? parent = some (.decider rule stop)) :
    shape.stopAt parent = stop := by
  simp only [stopAt, stands]

/-- Only deciders span more than themselves. -/
theorem exists_decider {node : Nat} (more : node + 1 < shape.stopAt node) :
    ∃ rule, shape.atom? node = some (.decider rule (shape.stopAt node)) := by
  revert more
  unfold stopAt
  split
  · next rule stop stands => exact fun _ => ⟨rule, stands⟩
  all_goals exact fun more => absurd more (Nat.lt_irrefl _)

theorem stopAt_le_size (shape : Shape β) {node : Nat} (inside : node < shape.size) :
    shape.stopAt node ≤ shape.size := by
  unfold stopAt
  split
  · next stands => exact (shape.has_child stands).2
  all_goals exact inside

/-- What stands within a subtree ends within it. -/
theorem stopAt_le_around (shape : Shape β) {outer inner : Nat} (behind : outer < inner)
    (inside : inner < shape.stopAt outer) : shape.stopAt inner ≤ shape.stopAt outer := by
  by_cases action : shape.stopAt inner ≤ inner + 1
  · omega
  · obtain ⟨_, outside⟩ := exists_decider (show outer + 1 < shape.stopAt outer by omega)
    obtain ⟨_, stands⟩ := exists_decider (Nat.not_le.mp action)
    exact shape.stop_le_around outside stands behind inside

namespace IsChild

/-- A child ends within its decider. -/
theorem stopAt_le_stop (isChild : shape.IsChild parent stop child)
    (stands : shape.atom? parent = some (.decider rule stop)) : shape.stopAt child ≤ stop := by
  obtain ⟨behind, before⟩ := isChild.within
  have same := stopAt_decider stands
  have within := shape.stopAt_le_around behind (by omega)
  omega

/-- What stands between a decider and one of its children ends before the child. -/
theorem stopAt_le_of_before (isChild : shape.IsChild parent stop child) {node : Nat}
    (behind : parent < node) (before : node < child) : shape.stopAt node ≤ child := by
  induction isChild with
  | first => omega
  | @next earlier _ _ ih =>
    have forward := shape.lt_stopAt earlier
    rcases Nat.lt_trichotomy node earlier with smaller | rfl | larger
    · exact Nat.le_trans (ih smaller) (Nat.le_of_lt forward)
    · exact Nat.le_refl _
    · exact shape.stopAt_le_around larger before

/-- Around a child there is its decider, and what is around that. -/
theorem around_eq (isChild : shape.IsChild parent stop child)
    (stands : shape.atom? parent = some (.decider rule stop)) :
    shape.around child = shape.around parent ++ [parent] := by
  obtain ⟨behind, before⟩ := isChild.within
  have same := stopAt_decider stands
  obtain ⟨between, rfl⟩ := Nat.exists_eq_add_of_lt behind
  have outer : (List.range parent).filter
      (fun decider => decide (parent + between + 1 < shape.stopAt decider)) =
        shape.around parent := by
    apply List.filter_congr
    intro decider member
    have earlier := List.mem_range.mp member
    rw [decide_eq_decide]
    refine ⟨fun around => by omega, fun around => ?_⟩
    have within := shape.stopAt_le_around earlier around
    omega
  have inner : ((List.range between).map (parent + 1 + ·)).filter
      (fun decider => decide (parent + between + 1 < shape.stopAt decider)) = [] := by
    rw [List.filter_eq_nil_iff]
    intro decider member
    obtain ⟨offset, place, rfl⟩ := List.mem_map.mp member
    have inside := List.mem_range.mp place
    have ends := isChild.stopAt_le_of_before (show parent < parent + 1 + offset by omega)
      (by omega)
    simp only [decide_eq_true_eq]
    omega
  have range : List.range (parent + between + 1) =
      List.range parent ++ [parent] ++ (List.range between).map (parent + 1 + ·) := by
    rw [Nat.add_right_comm, List.range_add, List.range_succ]
  rw [around, range, List.filter_append, List.filter_append, outer, inner, List.append_nil,
    List.filter_cons_of_pos (by simpa [same] using before), List.filter_nil]

end IsChild

end Shape

/-- The rule of a decider with some progress. -/
def Progress.rule : Progress → Rule
  | .sequence _ => .sequence
  | .dynamicPriority => .dynamicPriority
  | .concurrent _ => .concurrent

namespace Frame

/-- An earlier child of the decider has delivered an active status. -/
def HasActive (shape : Shape β) (told : List Happening) (frame : Frame) : Prop :=
  ∃ child status, shape.IsChild frame.atom frame.stop child ∧ Status.isActive status = true ∧
    .left child status ∈ told

/-- What a decider remembers agrees with what has happened to the children before one of them. -/
def Recalls (shape : Shape β) (told : List Happening) (child : Nat) (frame : Frame) : Prop :=
  match frame.progress with
  | .sequence reached => reached = child
  | .dynamicPriority => True
  | .concurrent aggregate => aggregate = .running ↔ frame.HasActive shape told

/-- The frame is that of a decider that has come to one of its children. -/
structure LeadsTo (shape : Shape β) (told : List Happening) (child : Nat) (frame : Frame) :
    Prop where
  stands : shape.atom? frame.atom = some (.decider frame.progress.rule frame.stop)
  isChild : shape.IsChild frame.atom frame.stop child
  recalls : frame.Recalls shape told child

end Frame

/-- Frames of deciders, each the child that the one before has come to, down to a node. -/
inductive Descends (shape : Shape β) (told : List Happening) : List Frame → Nat → Prop
  | root : Descends shape told [] 0
  | child {outer : List Frame} {frame : Frame} {child : Nat}
      (around : Descends shape told outer frame.atom) (leads : frame.LeadsTo shape told child) :
      Descends shape told (outer ++ [frame]) child

namespace Descends
variable {told other : List Happening} {frames outer : List Frame} {frame : Frame} {node : Nat}

theorem eq_zero (descends : Descends shape told [] node) : node = 0 := by
  generalize none : [] = frames at descends
  cases descends with
  | root => rfl
  | child => simp at none

theorem last (descends : Descends shape told (outer ++ [frame]) node) :
    Descends shape told outer frame.atom ∧ frame.LeadsTo shape told node := by
  generalize split : outer ++ [frame] = frames at descends
  cases descends with
  | root => simp at split
  | child around leads =>
    obtain ⟨rfl, single⟩ := List.append_inj' split rfl
    obtain rfl := List.head_eq_of_cons_eq single
    exact ⟨around, leads⟩

/-- What happens within the node makes no difference to what is remembered around it. -/
theorem retell (descends : Descends shape told frames node)
    (same : ∀ child status, child ≤ node ∨ shape.stopAt node ≤ child →
      (.left child status ∈ other ↔ .left child status ∈ told)) :
    Descends shape other frames node := by
  induction descends with
  | root => exact .root
  | @child outer frame child around leads ih =>
    obtain ⟨stands, isChild, recalls⟩ := leads
    obtain ⟨behind, before⟩ := isChild.within
    have ends := isChild.stopAt_le_stop stands
    refine .child (ih fun earlier status apart => same earlier status ?_) ⟨stands, isChild, ?_⟩
    · rw [Shape.stopAt_decider stands] at apart
      omega
    · unfold Frame.Recalls at recalls ⊢
      split at recalls
      · exact recalls
      · trivial
      · rw [recalls, Frame.HasActive, Frame.HasActive]
        apply exists_congr
        intro earlier
        apply exists_congr
        intro status
        apply and_congr_right
        intro another
        rw [same]
        by_cases later : child < earlier
        · exact .inr (isChild.stopAt_le another later)
        · exact .inl (Nat.not_lt.mp later)

/-- The frames are those of the deciders around the node. -/
theorem around_eq (descends : Descends shape told frames node) :
    frames.map Frame.atom = shape.around node := by
  induction descends with
  | root => rfl
  | child around leads ih =>
    rw [List.map_append, ih, leads.isChild.around_eq leads.stands, List.map_singleton]

theorem stands (descends : Descends shape told frames node) :
    ∀ frame ∈ frames, shape.atom? frame.atom = some (.decider frame.progress.rule frame.stop) := by
  induction descends with
  | root => exact fun _ member => nomatch member
  | child around leads ih =>
    intro frame member
    rcases List.mem_append.mp member with outer | now
    · exact ih frame outer
    · obtain rfl := List.mem_singleton.mp now
      exact leads.stands

theorem encloses (descends : Descends shape told frames node) :
    ∀ frame ∈ frames, frame.atom < node ∧ node < frame.stop := by
  intro frame member
  have around : frame.atom ∈ shape.around node :=
    descends.around_eq ▸ List.mem_map_of_mem member
  rw [Shape.mem_around, Shape.stopAt_decider (descends.stands frame member)] at around
  exact around

/-- Each decider lies within those before it. -/
theorem nested (descends : Descends shape told frames node) :
    frames.Pairwise fun outer inner => outer.atom < inner.atom ∧ inner.stop ≤ outer.stop := by
  induction descends with
  | root => exact .nil
  | child around leads ih =>
    refine List.pairwise_append.mpr ⟨ih, List.pairwise_singleton _ _, ?_⟩
    intro outer member inner now
    obtain rfl := List.mem_singleton.mp now
    obtain ⟨behind, before⟩ := around.encloses outer member
    exact ⟨behind, shape.stop_le_around (around.stands outer member) leads.stands behind before⟩

/-- A sequence has come to the child that holds the node. -/
theorem reached (descends : Descends shape told frames node) :
    ∀ frame ∈ frames, ∀ reached, frame.progress = .sequence reached →
      shape.IsChild frame.atom frame.stop reached ∧ reached ≤ node ∧
        node < shape.stopAt reached := by
  induction descends with
  | root => exact fun _ member => nomatch member
  | @child outer top child around leads ih =>
    intro frame member reached progress
    rcases List.mem_append.mp member with earlier | now
    · obtain ⟨isChild, behind, before⟩ := ih frame earlier reached progress
      obtain ⟨later, inside⟩ := leads.isChild.within
      have same := Shape.stopAt_decider leads.stands
      have ends : shape.stopAt top.atom ≤ shape.stopAt reached := by
        rcases Nat.lt_or_eq_of_le behind with less | rfl
        · exact shape.stopAt_le_around less before
        · exact Nat.le_refl _
      exact ⟨isChild, by omega, by omega⟩
    · obtain rfl := List.mem_singleton.mp now
      have recalls := leads.recalls
      simp only [Frame.Recalls, progress] at recalls
      obtain rfl := recalls
      exact ⟨leads.isChild, Nat.le_refl _, shape.lt_stopAt _⟩

/-- A concurrent decider is running once an earlier child is active. -/
theorem running_iff (descends : Descends shape told frames node) :
    ∀ frame ∈ frames, ∀ aggregate, frame.progress = .concurrent aggregate →
      (aggregate = .running ↔ frame.HasActive shape told) := by
  induction descends with
  | root => exact fun _ member => nomatch member
  | child around leads ih =>
    intro frame member aggregate progress
    rcases List.mem_append.mp member with earlier | now
    · exact ih frame earlier aggregate progress
    · obtain rfl := List.mem_singleton.mp now
      have recalls := leads.recalls
      simp only [Frame.Recalls, progress] at recalls
      exact recalls

theorem lt_size (descends : Descends shape told frames node) : node < shape.size := by
  cases descends with
  | root => exact shape.size_pos
  | child around leads =>
    have inside := (shape.has_child leads.stands).2
    exact Nat.lt_of_lt_of_le leads.isChild.within.2 inside

/-- Once a child has been left, the decider itself is the node that is visited last. -/
theorem left (descends : Descends shape told (outer ++ [frame]) node) (status : Status) :
    Descends shape (told ++ [.left node status]) outer frame.atom := by
  obtain ⟨around, leads⟩ := descends.last
  obtain ⟨behind, before⟩ := leads.isChild.within
  rw [← Shape.stopAt_decider leads.stands] at before
  refine around.retell fun child other apart => ?_
  have different : child ≠ node := by omega
  simp [different]

end Descends

namespace Descends
variable {told : List Happening} {outer : List Frame} {frame : Frame} {node : Nat}

/-- A decider goes on with the next child. -/
theorem next (descends : Descends shape told (outer ++ [frame]) node) {status : Status}
    {progress : Progress} (heeds : frame.progress.Heeds status (shape.stopAt node) progress)
    (more : shape.stopAt node < frame.stop) :
    Descends shape (told ++ [.left node status]) (outer ++ [{ frame with progress }])
      (shape.stopAt node) := by
  obtain ⟨stands, isChild, recalls⟩ := descends.last.2
  have isNext := isChild.next more
  refine .child (descends.left status) ⟨?_, isNext, ?_⟩
  · have same : progress.rule = frame.progress.rule := by
      generalize frame.progress = before at heeds
      cases heeds <;> rfl
    rw [← same] at stands
    exact stands
  · obtain ⟨atom, stop, continuationMark, launchMark, before⟩ := frame
    have heeds : before.Heeds status (shape.stopAt node) progress := heeds
    cases heeds with
    | sequence => exact rfl
    | dynamicPriority => trivial
    | active active =>
      exact ⟨fun _ => ⟨node, status, isChild, active, by simp⟩, fun _ => rfl⟩
    | @passive aggregate passive =>
      have recalls : aggregate = .running ↔ _ := recalls
      show aggregate = .running ↔ _
      rw [recalls, Frame.HasActive, Frame.HasActive]
      apply exists_congr
      intro child
      apply exists_congr
      intro delivered
      apply and_congr_right
      intro _
      apply and_congr_right
      intro active
      have different : ¬(child = node ∧ delivered = status) := by
        rintro ⟨-, rfl⟩
        rw [passive] at active
        cases active
      simp [different]

/-- A decider that is entered leads to its first child, or to a later one that its actor remembers;
none of them has been visited yet. -/
theorem enter (descends : Descends shape told outer frame.atom) {rule : Rule}
    (stands : shape.atom? frame.atom = some (.decider rule frame.stop))
    (isChild : shape.IsChild frame.atom frame.stop node)
    (passed : ∀ atom status, .left atom status ∈ told → atom ≤ frame.atom) :
    Descends shape told
      (outer ++ [{ frame with progress := Frame.initialProgress node rule }]) node := by
  refine .child descends ⟨?_, isChild, ?_⟩
  · cases rule <;> exact stands
  · cases rule with
    | sequence => exact rfl
    | dynamicPriority => trivial
    | concurrent =>
      refine ⟨nofun, ?_⟩
      rintro ⟨child, status, another, -, left⟩
      have := another.within.1
      have := passed child status left
      have : frame.atom < child := another.within.1
      omega

end Descends

/-- The marks of frames do not fall from one to the next, and do not exceed what is counted. -/
structure Marked (frames : List Frame) (continuations launches : Nat) : Prop where
  rising : frames.Pairwise fun outer inner =>
    outer.continuationMark ≤ inner.continuationMark ∧ outer.launchMark ≤ inner.launchMark
  counted : ∀ frame ∈ frames,
    frame.continuationMark ≤ continuations ∧ frame.launchMark ≤ launches

namespace Marked
variable {frames outer : List Frame} {frame : Frame} {continuations launches more others : Nat}

theorem nil (continuations launches : Nat) : Marked [] continuations launches :=
  ⟨.nil, fun _ member => nomatch member⟩

/-- More may be counted than before. -/
theorem grow (marked : Marked frames continuations launches) (recorded : continuations ≤ more)
    (launched : launches ≤ others) : Marked frames more others :=
  ⟨marked.rising, fun frame member =>
    ⟨Nat.le_trans (marked.counted frame member).1 recorded,
      Nat.le_trans (marked.counted frame member).2 launched⟩⟩

/-- A new frame is marked with what is counted. -/
theorem opened (marked : Marked frames frame.continuationMark frame.launchMark) :
    Marked (frames ++ [frame]) frame.continuationMark frame.launchMark := by
  constructor
  · refine List.pairwise_append.mpr ⟨marked.rising, List.pairwise_singleton _ _, ?_⟩
    intro other member last now
    obtain rfl := List.mem_singleton.mp now
    exact marked.counted other member
  · intro other member
    rcases List.mem_append.mp member with earlier | now
    · exact marked.counted other earlier
    · obtain rfl := List.mem_singleton.mp now
      exact ⟨Nat.le_refl _, Nat.le_refl _⟩

/-- Where the innermost frame is dropped, nothing may be taken back but what came after it. -/
theorem dropped (marked : Marked (outer ++ [frame]) continuations launches)
    (recorded : min frame.continuationMark continuations ≤ more)
    (launched : min frame.launchMark launches ≤ others) : Marked outer more others := by
  obtain ⟨rising, -, across⟩ := List.pairwise_append.mp marked.rising
  refine ⟨rising, fun other member => ?_⟩
  have below := across other member frame (List.mem_singleton_self frame)
  have counted := marked.counted frame (by simp)
  omega

/-- A frame keeps its marks as it goes on. -/
theorem moved (marked : Marked (outer ++ [frame]) continuations launches) (progress : Progress) :
    Marked (outer ++ [{ frame with progress }]) continuations launches := by
  obtain ⟨rising, -, across⟩ := List.pairwise_append.mp marked.rising
  constructor
  · refine List.pairwise_append.mpr ⟨rising, List.pairwise_singleton _ _, ?_⟩
    intro other member last now
    obtain rfl := List.mem_singleton.mp now
    exact across other member frame (List.mem_singleton_self frame)
  · intro other member
    rcases List.mem_append.mp member with earlier | now
    · exact marked.counted other (List.mem_append_left _ earlier)
    · obtain rfl := List.mem_singleton.mp now
      exact marked.counted frame (by simp)

end Marked

/-- A span is empty or lies between two indices. -/
def Span.Within (span : Span) (low high : Nat) : Prop :=
  span.isEmpty = true ∨ low ≤ span.start ∧ span.stop ≤ high

namespace Span.Within
variable {span other : Span} {low high lower higher : Nat}

theorem mono (within : span.Within low high) (start : lower ≤ low) (stop : high ≤ higher) :
    span.Within lower higher :=
  within.imp_right fun ⟨low, high⟩ => ⟨Nat.le_trans start low, Nat.le_trans high stop⟩

/-- A span that covers two others lies where they do. -/
theorem cover (within : span.Within low high) (start : low ≤ other.start)
    (stop : other.stop ≤ high) : (span.cover other).Within low high := by
  unfold Span.cover
  split
  · exact within
  · split
    · exact .inr ⟨start, stop⟩
    · next used =>
      rcases within with empty | ⟨low, high⟩
      · exact absurd empty used
      · exact .inr ⟨Nat.le_min.mpr ⟨low, start⟩, Nat.max_le.mpr ⟨high, stop⟩⟩

end Span.Within

end BehaviorTree
