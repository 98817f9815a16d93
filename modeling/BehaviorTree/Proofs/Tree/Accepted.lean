import BehaviorTree.Proofs.Tree.Survey
import Mathlib.Data.List.Perm.Subperm

namespace BehaviorTree

namespace Forest

/-- The forest falls into the trees before an index and those from there on. -/
def Cut (index stop : Nat) (forest : List Tree) : Prop :=
  ∃ first second, forest = first ++ second ∧ index + size first = stop

theorem split_append (first second : List Tree) :
    split (size first) (first ++ second) = (first, second) := by
  induction first with
  | nil => rw [size, List.nil_append, split]
  | cons tree rest ih =>
    obtain ⟨count, more⟩ := Nat.exists_eq_add_one.mpr tree.size_pos
    have total : size (tree :: rest) = count + size rest + 1 := by
      rw [size, more]
      omega
    have left : count + size rest + 1 - tree.size = size rest := by omega
    rw [total, List.cons_append, split, left, ih]

/-- A later cut of a forest also cuts what lies behind an earlier one. -/
theorem Cut.behind {index stop other : Nat} {first second : List Tree}
    (cut : Cut index other (first ++ second)) (reached : index + size first = stop)
    (later : stop ≤ other) : Cut stop other second := by
  obtain ⟨front, back, split, reaches⟩ := cut
  rcases List.append_eq_append_iff.mp split with ⟨middle, rfl, rfl⟩ | ⟨middle, rfl, rfl⟩
  · refine ⟨middle, back, rfl, ?_⟩
    rw [size_append] at reaches
    omega
  · -- The earlier cut does not lie behind the later one, so nothing is between them.
    rw [size_append] at reached
    have nothing : middle = [] := by
      by_contra some
      have := size_pos some
      omega
    subst nothing
    refine ⟨[], second, rfl, ?_⟩
    simp only [size] at reached ⊢
    omega

/-- A cut of the trees behind the first one cuts the whole forest. -/
theorem Cut.cons {index stop : Nat} {tree : Tree} {rest : List Tree}
    (cut : Cut (index + tree.size) stop rest) : Cut index stop (tree :: rest) := by
  obtain ⟨first, second, rfl, reached⟩ := cut
  exact ⟨tree :: first, second, rfl, by rw [size]; omega⟩

/-- Each tree with deciders, put on top of the deciders that are open at its root, stays within a
depth. -/
def Within (depth : Nat) (stops : List Nat) (index : Nat) : List Tree → Prop
  | [] => True
  | tree :: rest =>
      (0 < tree.depth → stops.countP (fun stop => decide (index < stop)) + tree.depth ≤ depth) ∧
        Within depth stops (index + tree.size) rest

theorem within_append {depth : Nat} {stops : List Nat} {index : Nat} {first second : List Tree} :
    Within depth stops index (first ++ second) ↔
      Within depth stops index first ∧ Within depth stops (index + size first) second := by
  induction first generalizing index with
  | nil => simp [Within, size]
  | cons tree rest ih =>
    rw [List.cons_append, Within, ih, Within, and_assoc, size, Nat.add_assoc]

/-- Stops that leave the same deciders open behind an index allow the same trees there. -/
theorem Within.congr {depth : Nat} {stops others : List Nat} {index : Nat} {forest : List Tree}
    (same : ∀ place, index ≤ place → stops.countP (fun stop => decide (place < stop)) =
      others.countP fun stop => decide (place < stop))
    (within : Within depth stops index forest) : Within depth others index forest := by
  induction forest generalizing index with
  | nil => trivial
  | cons tree rest ih =>
    refine ⟨fun deciders => ?_, ih (fun place later => same place (by omega)) within.2⟩
    rw [← same index (Nat.le_refl _)]
    exact within.1 deciders

/-- Trees in front of all stops are as deep as the deepest of them. -/
theorem Within.depth_le {depth : Nat} {stops : List Nat} {index : Nat} {forest : List Tree}
    (open_ : ∀ stop ∈ stops, index + size forest ≤ stop) (room : stops.length ≤ depth)
    (within : Within depth stops index forest) : stops.length + Forest.depth forest ≤ depth := by
  induction forest generalizing index with
  | nil => simpa [Forest.depth] using room
  | cons tree rest ih =>
    have later := ih (fun stop member => by
      have := open_ stop member
      rw [size] at this
      omega) within.2
    have all : stops.countP (fun stop => decide (index < stop)) = stops.length := by
      rw [List.countP_eq_length]
      intro stop member
      have := open_ stop member
      have : 0 < size (tree :: rest) := size_pos (by simp)
      simp only [decide_eq_true_eq]
      omega
    have first := within.1
    rw [all] at first
    rw [Forest.depth]
    omega

end Forest

namespace Survey
variable {size functions index : Nat} {atoms : List Atom} {survey after : Survey}

/-- What the survey of a stream says about its forest. -/
structure Describes (survey : Survey) (frames index : Nat) (atoms : List Atom)
    (forest : List Tree) : Prop where
  listing : Forest.listing index forest = atoms
  proper : Forest.Proper forest
  cut : ∀ stop ∈ survey.stops, index ≤ stop → Forest.Cut index stop forest
  within : Forest.Within frames survey.stops index forest

/-- The open deciders end within the stream, inner ones no later than outer ones. -/
structure Nested (survey : Survey) (size : Nat) : Prop where
  ordered : survey.stops.Pairwise (· ≤ ·)
  inside : ∀ stop ∈ survey.stops, stop ≤ size
  counted : survey.stops.length ≤ survey.frames

namespace Nested

/-- Closing at an index drops exactly the stops up to it. -/
theorem stops_close (nested : survey.Nested size) (index : Nat) :
    (survey.close index).stops = survey.stops.filter fun stop => decide (index < stop) := by
  have ordered := nested.ordered
  simp only [close]
  generalize survey.stops = stops at ordered
  induction stops with
  | nil => rfl
  | cons stop rest ih =>
    obtain ⟨first, rest_ordered⟩ := List.pairwise_cons.mp ordered
    by_cases closed : stop ≤ index
    · rw [List.dropWhile_cons_of_pos (by simpa), List.filter_cons_of_neg (by simpa using closed),
        ih rest_ordered]
    · rw [List.dropWhile_cons_of_neg (by simpa using closed), eq_comm, List.filter_eq_self]
      intro other member
      rcases List.mem_cons.mp member with rfl | member
      · simpa using closed
      · have := first other member
        simp only [decide_eq_true_eq]
        omega

theorem close (nested : survey.Nested size) (index : Nat) : (survey.close index).Nested size := by
  have sublist : (survey.close index).stops.Sublist survey.stops := by
    rw [nested.stops_close]
    exact List.filter_sublist
  exact ⟨nested.ordered.sublist sublist, fun stop member => nested.inside stop
    (sublist.subset member), Nat.le_trans sublist.length_le nested.counted⟩

/-- Within its parent, a decider ends no later than any open decider. -/
theorem least (nested : survey.Nested size) {stop : Nat}
    (within : ∀ parentStop ∈ survey.stops.head?, stop ≤ parentStop) :
    ∀ other ∈ survey.stops, stop ≤ other := by
  have ordered := nested.ordered
  intro other member
  cases stops : survey.stops with
  | nil =>
    rw [stops] at member
    cases member
  | cons parentStop outer =>
    rw [stops] at member ordered within
    have first := within parentStop rfl
    rcases List.mem_cons.mp member with rfl | member
    · exact first
    · exact Nat.le_trans first ((List.pairwise_cons.mp ordered).1 other member)

theorem opened (nested : survey.Nested size) {rule : Rule} {stop : Nat} (inside : stop ≤ size)
    (within : ∀ parentStop ∈ survey.stops.head?, stop ≤ parentStop) :
    (survey.opened rule stop).Nested size := by
  refine ⟨List.pairwise_cons.mpr ⟨nested.least within, nested.ordered⟩, fun other member => ?_,
    Nat.le_max_right _ _⟩
  rcases List.mem_cons.mp member with rfl | member
  · exact inside
  · exact nested.inside other member

/-- A visited decider ends no later than the deciders that are still open, and every visit leaves
the open deciders nested. -/
theorem visits (nested : survey.Nested size) {atom : Atom}
    (visits : Visits size functions index survey atom after) :
    after.Nested size ∧ (∀ outer ∈ survey.stops, index < outer → outer ∈ after.stops) ∧
      ∀ rule stop, atom = .decider rule stop →
        stop ∈ after.stops ∧ ∀ outer ∈ survey.stops, index < outer → stop ≤ outer := by
  have closed := nested.close index
  have still : ∀ outer ∈ survey.stops, index < outer → outer ∈ (survey.close index).stops := by
    intro outer member later
    rw [nested.stops_close, List.mem_filter]
    exact ⟨member, by simpa using later⟩
  cases visits with
  | immediate | deferred | persistent =>
    exact ⟨⟨closed.ordered, closed.inside, closed.counted⟩, still, fun _ _ same => by cases same⟩
  | decider rule stop child inside within =>
    refine ⟨closed.opened inside within,
      fun outer member later => List.mem_cons_of_mem _ (still outer member later), ?_⟩
    rintro _ _ ⟨⟩
    exact ⟨List.mem_cons_self,
      fun outer member later => closed.least within outer (still outer member later)⟩

end Nested

/-- The stops that are still open at an index. -/
theorem countP_close (survey : Survey) (nested : survey.Nested size) (index place : Nat)
    (later : index ≤ place) :
    (survey.close index).stops.countP (fun stop => decide (place < stop)) =
      survey.stops.countP fun stop => decide (place < stop) := by
  rw [nested.stops_close, List.countP_filter]
  apply List.countP_congr
  intro stop _
  simp only [Bool.and_eq_true, decide_eq_true_eq]
  omega

/-- An action in front of the forest. -/
theorem Describes.action {frames : Nat} {forest : List Tree} {middle : Survey} (leaf : Leaf)
    (nested : survey.Nested size) (describes : middle.Describes frames (index + 1) atoms forest)
    (stops : middle.stops = (survey.close index).stops) :
    survey.Describes frames index (leaf.atom :: atoms) (.action leaf :: forest) where
  listing := by
    rw [Forest.listing, Tree.listing, Tree.size, describes.listing]
    rfl
  proper := ⟨trivial, describes.proper⟩
  cut stop member reached := by
    rcases Nat.lt_or_eq_of_le reached with later | rfl
    · refine Forest.Cut.cons (describes.cut stop ?_ later)
      rw [stops, nested.stops_close, List.mem_filter]
      exact ⟨member, by simpa using later⟩
    · exact ⟨[], _, rfl, rfl⟩
  within := by
    refine ⟨fun deciders => absurd deciders (Nat.lt_irrefl 0), ?_⟩
    apply describes.within.congr
    intro place later
    rw [stops]
    exact survey.countP_close nested index place (by omega)

/-- A decider in front of the forest takes the trees up to its stop. -/
theorem Describes.decider {frames stop : Nat} {rule : Rule} {forest : List Tree}
    (nested : survey.Nested size) (child : index + 1 < stop)
    (within : ∀ parentStop ∈ (survey.close index).stops.head?, stop ≤ parentStop)
    (room : ((survey.close index).opened rule stop).frames ≤ frames)
    (describes :
      ((survey.close index).opened rule stop).Describes frames (index + 1) atoms forest) :
    survey.Describes frames index (.decider rule stop :: atoms)
      (.decider rule (Forest.split (stop - (index + 1)) forest).1 ::
        (Forest.split (stop - (index + 1)) forest).2) := by
  obtain ⟨children, rest, rfl, reached⟩ :=
    describes.cut stop List.mem_cons_self (Nat.le_of_lt child)
  have count : stop - (index + 1) = Forest.size children := by omega
  rw [count, Forest.split_append]
  have closed := nested.close index
  -- The stops that stay open lie behind the decider's own.
  have outer := closed.least within
  obtain ⟨proper, proper_rest⟩ := (Forest.proper_append _ _).mp describes.proper
  obtain ⟨inner, behind⟩ := Forest.within_append.mp describes.within
  have next : index + (Tree.decider rule children).size = stop := by
    rw [Tree.size]
    omega
  refine ⟨?_, ?_, ?_, ?_⟩
  · rw [Forest.listing, Tree.listing, ← describes.listing, Forest.listing_append, next, reached]
    rfl
  · refine ⟨⟨?_, proper⟩, proper_rest⟩
    rintro rfl
    rw [Forest.size] at reached
    omega
  · intro other member from_
    rcases Nat.lt_or_eq_of_le from_ with later | rfl
    · have still : other ∈ (survey.close index).stops := by
        rw [nested.stops_close, List.mem_filter]
        exact ⟨member, by simpa using later⟩
      have cut := describes.cut other (List.mem_cons_of_mem _ still) later
      apply Forest.Cut.cons
      rw [next]
      exact cut.behind reached (outer other still)
    · exact ⟨[], _, rfl, rfl⟩
  · have frames_room : (survey.close index).stops.length + 1 ≤ frames :=
      Nat.le_trans (Nat.le_max_right _ _) room
    have deep := inner.depth_le (fun other member => by
      rcases List.mem_cons.mp member with rfl | member
      · omega
      · have := outer other member
        omega) frames_room
    refine ⟨fun _ => ?_, ?_⟩
    · have opened : survey.stops.countP (fun stop => decide (index < stop)) =
          (survey.close index).stops.length := by
        rw [nested.stops_close, List.countP_eq_length_filter]
      have depth : (Tree.decider rule children).depth = Forest.depth children + 1 := rfl
      rw [opened, depth]
      simp only [Survey.opened, List.length_cons] at deep
      omega
    · rw [next]
      rw [reached] at behind
      apply behind.congr
      intro place later
      have past : ¬place < stop := by omega
      rw [← survey.countP_close nested index place (by omega)]
      simp [Survey.opened, past]

/-- The walk over a stream describes its forest. -/
theorem Walks.describes (walks : Walks size functions index atoms survey after)
    (total : index + atoms.length = size) (nested : survey.Nested size) :
    survey.Describes after.frames index atoms (Forest.ofAtoms index atoms) := by
  induction walks with
  | nil index survey =>
    refine ⟨rfl, trivial, fun stop member reached => ⟨[], [], rfl, ?_⟩, trivial⟩
    have := nested.inside stop member
    simp only [List.length_nil, Nat.add_zero] at total
    simp only [Forest.size]
    omega
  | @cons index atom atoms survey middle after visits rest ih =>
    have left : index + 1 + atoms.length = size := by
      simp only [List.length_cons] at total
      omega
    have closed := nested.close index
    cases visits with
    | immediate function known =>
      exact Describes.action (.immediate function) nested
        (ih left ⟨closed.ordered, closed.inside, closed.counted⟩) rfl
    | deferred action resource =>
      exact Describes.action (.deferred action resource) nested
        (ih left ⟨closed.ordered, closed.inside, closed.counted⟩) rfl
    | persistent =>
      exact Describes.action (.persistent survey.slotAtoms.size) nested
        (ih left ⟨closed.ordered, closed.inside, closed.counted⟩) rfl
    | decider rule stop child inside within =>
      exact (ih left (closed.opened inside within)).decider nested child within rest.frames_le

/-- A decider ends no later than those that are open around it. -/
theorem Walks.stop_le_open (walks : Walks size functions index atoms survey after)
    (nested : survey.Nested size) {offset stop outer : Nat} {rule : Rule}
    (decider : atoms[offset]? = some (.decider rule stop)) (member : outer ∈ survey.stops)
    (inside : index + offset < outer) : stop ≤ outer := by
  induction walks generalizing offset with
  | nil => simp at decider
  | @cons index atom atoms survey middle after visits rest ih =>
    obtain ⟨middle_nested, still, opens⟩ := nested.visits visits
    cases offset with
    | zero =>
      rw [List.getElem?_cons_zero, Option.some.injEq] at decider
      exact (opens rule stop decider).2 outer member inside
    | succ offset =>
      rw [List.getElem?_cons_succ] at decider
      exact ih middle_nested decider (still outer member (by omega)) (by omega)

/-- A decider ends no later than those around it. -/
theorem Walks.stop_le (walks : Walks size functions index atoms survey after)
    (nested : survey.Nested size) {place offset outer stop : Nat} {around rule : Rule}
    (outside : atoms[place]? = some (.decider around outer))
    (decider : atoms[offset]? = some (.decider rule stop)) (behind : place < offset)
    (inside : index + offset < outer) : stop ≤ outer := by
  induction walks generalizing place offset with
  | nil => simp at decider
  | @cons index atom atoms survey middle after visits rest ih =>
    obtain ⟨middle_nested, -, opens⟩ := nested.visits visits
    obtain ⟨offset, rfl⟩ : ∃ before, offset = before + 1 := ⟨offset - 1, by omega⟩
    rw [List.getElem?_cons_succ] at decider
    cases place with
    | zero =>
      rw [List.getElem?_cons_zero, Option.some.injEq] at outside
      exact rest.stop_le_open middle_nested decider (opens around outer outside).1 (by omega)
    | succ place =>
      rw [List.getElem?_cons_succ] at outside
      exact ih middle_nested outside decider (by omega) (by omega)

/-- An accepted stream has been walked over from its first atom, which spans it. -/
theorem walks_of_ofAtoms {stream : Array Atom} (accepted : ofAtoms stream functions = .ok after) :
    0 < stream.size ∧ stream.size < atomLimit ∧ rootStop stream = stream.size ∧
      Walks stream.size functions 0 stream.toList {} after := by
  unfold ofAtoms at accepted
  by_cases empty : stream.isEmpty
  · simp [empty] at accepted
  by_cases large : atomLimit ≤ stream.size
  · simp [empty, large] at accepted
  by_cases many : functionLimit < functions
  · simp [empty, large, many] at accepted
  by_cases span : rootStop stream = stream.size
  · simp only [empty, Bool.false_eq_true, if_false, if_neg large, if_neg many, span, ne_eq,
      not_true_eq_false] at accepted
    refine ⟨?_, by omega, span, walks_of_walk accepted⟩
    simpa [Array.isEmpty_iff_size_eq_zero, Nat.pos_iff_ne_zero] using empty
  · simp [empty, large, many, span] at accepted

end Survey

namespace Shape
variable {β : Type} (shape : Shape β)

theorem size_pos : 0 < shape.size := (Survey.walks_of_ofAtoms shape.accepted).1

theorem size_lt : shape.size + 1 < Word.bound32 := by
  have small := (Survey.walks_of_ofAtoms shape.accepted).2.1
  simp only [Survey.atomLimit, Word.bound32] at small ⊢
  exact Nat.add_lt_of_lt_sub small

theorem walks :
    Survey.Walks shape.size shape.functions.size 0 shape.atoms.toList {} shape.survey :=
  (Survey.walks_of_ofAtoms shape.accepted).2.2.2

theorem atom?_eq (index : Nat) : shape.atom? index = shape.atoms.toList[index]? := by
  rw [atom?, Array.getElem?_toList]

theorem atom?_isSome_iff (index : Nat) : (shape.atom? index).isSome ↔ index < shape.size := by
  simp [atom?, size]

/-- The forest of the stream is the tree alone. -/
theorem ofAtoms_eq : Forest.ofAtoms 0 shape.atoms.toList = [shape.tree] := by
  obtain ⟨used, -, span, walks⟩ := Survey.walks_of_ofAtoms shape.accepted
  have describes := walks.describes (by simp) ⟨List.Pairwise.nil, by simp, Nat.le_refl 0⟩
  obtain ⟨atom, atoms, stream⟩ : ∃ atom atoms, shape.atoms.toList = atom :: atoms := by
    cases stream : shape.atoms.toList with
    | nil =>
      have := congrArg List.length stream
      simp only [Array.length_toList, List.length_nil] at this
      omega
    | cons atom atoms => exact ⟨atom, atoms, rfl⟩
  obtain ⟨tree, rest, forest⟩ : ∃ tree rest, Forest.ofAtoms 0 (atom :: atoms) = tree :: rest := by
    cases atom <;> exact ⟨_, _, rfl⟩
  rw [Shape.tree, stream, forest, List.headD_cons]
  rw [stream, forest] at describes
  -- The root spans the stream, so no node is left for a second tree.
  have total : Forest.size (tree :: rest) = shape.atoms.size := by
    have := congrArg List.length describes.listing
    rw [Forest.length_listing, ← stream, Array.length_toList] at this
    exact this
  have first : shape.atoms[0]? = some atom := by
    rw [← Array.getElem?_toList, stream, List.getElem?_cons_zero]
  have spans : tree.size = shape.atoms.size := by
    have root := describes.listing
    rw [Survey.rootStop, first] at span
    rw [Forest.listing] at root
    cases tree with
    | action leaf =>
      rw [Tree.listing, List.singleton_append, List.cons.injEq] at root
      rw [← root.1] at span
      cases leaf <;> exact span
    | decider rule children =>
      rw [Tree.listing, List.cons_append, List.cons.injEq] at root
      rw [← root.1] at span
      simp only [Option.bind_some, Atom.stop?, Option.getD_some] at span
      rw [Tree.size]
      omega
  rw [Forest.size] at total
  have none : rest = [] := by
    by_contra some
    have := Forest.size_pos some
    omega
  rw [none]

/-- The forest of the stream is as the survey says. -/
theorem describes :
    Survey.Describes {} shape.needs.frames 0 shape.atoms.toList [shape.tree] := by
  rw [← shape.ofAtoms_eq]
  exact shape.walks.describes (by simp [size]) ⟨List.Pairwise.nil, by simp, Nat.le_refl 0⟩

/-- The stream of a shape lists its tree. -/
theorem listing_tree : shape.tree.listing 0 = shape.atoms.toList := by
  simpa [Forest.listing] using shape.describes.listing

theorem proper_tree : shape.tree.Proper := shape.describes.proper.1

@[simp] theorem size_tree : shape.tree.size = shape.size := by
  rw [← Tree.length_listing 0, listing_tree, Array.length_toList, size]

theorem holds_tree : shape.Holds 0 (shape.tree.listing 0) := by
  intro offset inside
  rw [atom?_eq, ← listing_tree, Nat.zero_add, List.getElem?_eq_getElem inside]

/-- There are frames for all deciders on a path. -/
theorem depth_tree_le : shape.tree.depth ≤ shape.needs.frames := by
  rcases Nat.eq_zero_or_pos shape.tree.depth with flat | deciders
  · omega
  · have := shape.describes.within.1 deciders
    omega

/-- Every decider has a child, and ends within the shape. -/
theorem has_child {index stop : Nat} {rule : Rule}
    (decider : shape.atom? index = some (.decider rule stop)) :
    index + 1 < stop ∧ stop ≤ shape.size := by
  rw [atom?_eq] at decider
  have used := shape.walks.has_child index decider
  rwa [Nat.zero_add] at used

/-- A decider ends no later than those around it. -/
theorem stop_le_around {outer index last stop : Nat} {around rule : Rule}
    (outside : shape.atom? outer = some (.decider around last))
    (decider : shape.atom? index = some (.decider rule stop)) (behind : outer < index)
    (inside : index < last) : stop ≤ last := by
  rw [atom?_eq] at outside decider
  exact shape.walks.stop_le ⟨List.Pairwise.nil, by simp, Nat.le_refl 0⟩ outside decider behind
    (by omega)

/-- An immediate action calls a function of the shape. -/
theorem function?_isSome {index function : Nat}
    (immediate : shape.atom? index = some (.immediate function)) :
    (shape.function? function).isSome := by
  rw [atom?_eq] at immediate
  have known := shape.walks.functions_known function (List.mem_of_getElem? immediate)
  simpa [function?] using known

/-- A persistent action owns the slot of its number. -/
theorem slotAtoms_getElem? {index slot : Nat}
    (persistent : shape.atom? index = some (.persistent slot)) :
    shape.slotAtoms[slot]? = some index := by
  rw [atom?_eq] at persistent
  have owned := shape.walks.slot_owned index slot persistent
  rwa [Nat.zero_add] at owned

theorem toList_slotAtoms : shape.slotAtoms.toList =
    ((shape.atoms.toList.zipIdx).filter fun entry => entry.1.isPersistent).map Prod.snd :=
  shape.walks.slotAtoms

/-- The atoms that own slots are the persistent actions. -/
theorem mem_slotAtoms_iff (index : Nat) :
    index ∈ shape.slotAtoms.toList ↔ ∃ slot, shape.atom? index = some (.persistent slot) := by
  rw [toList_slotAtoms, List.mem_map]
  constructor
  · rintro ⟨⟨atom, place⟩, member, rfl⟩
    obtain ⟨stands, persistent⟩ := List.mem_filter.mp member
    rw [List.mem_zipIdx_iff_getElem?, ← atom?_eq] at stands
    cases atom with
    | persistent slot => exact ⟨slot, stands⟩
    | _ => cases persistent
  · rintro ⟨slot, stands⟩
    refine ⟨(.persistent slot, index), List.mem_filter.mpr ⟨?_, rfl⟩, rfl⟩
    rwa [List.mem_zipIdx_iff_getElem?, ← atom?_eq]

/-- The atoms that own slots ascend. -/
theorem ascending_slotAtoms : Ascending shape.slotAtoms.toList := by
  rw [toList_slotAtoms, Ascending, List.pairwise_map]
  apply List.Pairwise.filter _
  have indices : (shape.atoms.toList.zipIdx).map Prod.snd = List.range shape.size := by
    simp [List.zipIdx_map_snd, size, List.range_eq_range']
  have ascending : ((shape.atoms.toList.zipIdx).map Prod.snd).Pairwise (· < ·) := by
    rw [indices]
    exact List.pairwise_lt_range
  exact List.pairwise_map.mp ascending

/-- A slot belongs to the persistent action of its number, and to no other. -/
theorem slotAtoms_getElem?_iff (index slot : Nat) :
    shape.slotAtoms[slot]? = some index ↔ shape.atom? index = some (.persistent slot) := by
  refine ⟨fun owned => ?_, shape.slotAtoms_getElem?⟩
  have present : index ∈ shape.slotAtoms.toList :=
    List.mem_of_getElem? (Array.getElem?_toList.trans owned)
  obtain ⟨number, stands⟩ := (shape.mem_slotAtoms_iff index).mp present
  have distinct : shape.slotAtoms.toList.Nodup :=
    shape.ascending_slotAtoms.imp fun less => Nat.ne_of_lt less
  have inside : slot < shape.slotAtoms.toList.length := by
    obtain ⟨inside, -⟩ := Array.getElem?_eq_some_iff.mp owned
    exact inside
  have same : slot = number := by
    apply (List.getElem?_inj inside distinct).mp
    rw [Array.getElem?_toList, Array.getElem?_toList, owned, shape.slotAtoms_getElem? stands]
  rw [stands, same]

/-- Different atoms of one kind are no more than the atoms of that kind. -/
theorem length_le_countP (kind : Atom → Bool) {indices : List Nat} (distinct : indices.Nodup)
    (members : ∀ index ∈ indices, (shape.atom? index).any kind = true) :
    indices.length ≤ shape.atoms.toList.countP kind := by
  have all : indices ⊆ ((shape.atoms.toList.zipIdx).filter fun entry => kind entry.1).map
      Prod.snd := by
    intro index member
    obtain ⟨atom, stands, holds⟩ := (Option.any_eq_true _ _).mp (members index member)
    refine List.mem_map.mpr ⟨(atom, index), List.mem_filter.mpr ⟨?_, holds⟩, rfl⟩
    rwa [List.mem_zipIdx_iff_getElem?, ← atom?_eq]
  have bound := (List.subperm_of_subset distinct all).length_le
  rw [List.length_map, ← List.countP_eq_length_filter] at bound
  have count : (shape.atoms.toList.zipIdx).countP (fun entry => kind entry.1) =
      ((shape.atoms.toList.zipIdx).map Prod.fst).countP kind := by
    rw [List.countP_map]
    rfl
  rwa [count, List.zipIdx_map_fst] at bound

theorem needs_continuations :
    shape.needs.continuations = shape.atoms.toList.countP Atom.isSequence := by
  have count := shape.walks.counts.1
  rwa [Nat.zero_add] at count

theorem needs_outstanding :
    shape.needs.outstanding = shape.atoms.toList.countP Atom.isAction := by
  have count := shape.walks.counts.2.1
  rwa [Nat.zero_add] at count

theorem needs_requests : shape.needs.requests = shape.atoms.toList.countP Atom.isDeferred := by
  have count := shape.walks.counts.2.2
  rwa [Nat.zero_add] at count

theorem needs_slotChanges :
    shape.needs.slotChanges = shape.atoms.toList.countP Atom.isPersistent := by
  change shape.slotAtoms.size = _
  rw [← Array.length_toList, toList_slotAtoms, List.length_map, ← List.countP_eq_length_filter]
  have count : (shape.atoms.toList.zipIdx).countP (fun entry => entry.1.isPersistent) =
      ((shape.atoms.toList.zipIdx).map Prod.fst).countP Atom.isPersistent := by
    rw [List.countP_map]
    rfl
  rw [count, List.zipIdx_map_fst]

end Shape

end BehaviorTree
