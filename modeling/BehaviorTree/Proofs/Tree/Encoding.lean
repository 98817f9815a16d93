import BehaviorTree.Proofs.Tree.Accepted

namespace BehaviorTree

/-- The slot of a persistent action. -/
def Atom.slot? : Atom → Option Nat
  | persistent slot => some slot
  | immediate _ | deferred _ _ | decider _ _ => none

namespace Leaf

@[simp] theorem isAction_atom (leaf : Leaf) : leaf.atom.isAction = true := by
  cases leaf <;> rfl

theorem isSome_slot? (leaf : Leaf) : leaf.atom.slot?.isSome = leaf.atom.isPersistent := by
  cases leaf <;> rfl

/-- The function that an immediate action calls. -/
def function? : Leaf → Option Nat
  | immediate function => some function
  | deferred _ _ | persistent _ => none

end Leaf

mutual

/-- The actions of a tree in pre-order, each with the index at which it stands. -/
def Tree.leaves (index : Nat) : Tree → List (Entry Leaf)
  | .action leaf => [⟨index, leaf⟩]
  | .decider _ children => Forest.leaves (index + 1) children

/-- The actions of a forest, one tree after the other. -/
def Forest.leaves (index : Nat) : List Tree → List (Entry Leaf)
  | [] => []
  | tree :: rest => tree.leaves index ++ Forest.leaves (index + tree.size) rest

end

mutual

/-- The number of sequences of a tree. -/
def Tree.sequences : Tree → Nat
  | .action _ => 0
  | .decider rule children => (if rule = .sequence then 1 else 0) + Forest.sequences children

/-- The number of sequences of all trees of a forest. -/
def Forest.sequences : List Tree → Nat
  | [] => 0
  | tree :: rest => tree.sequences + Forest.sequences rest

end

namespace Forest

/-- The slots of the persistent actions, in pre-order. -/
def slots (index : Nat) (forest : List Tree) : List Nat :=
  (leaves index forest).filterMap fun leaf => leaf.value.atom.slot?

/-- Where the persistent actions stand. -/
def owners (index : Nat) (forest : List Tree) : List Nat :=
  ((leaves index forest).filter fun leaf => leaf.value.atom.isPersistent).map Entry.atom

/-- The persistent actions have the slots from a number on, one after the other. -/
def Numbered (next index : Nat) (forest : List Tree) : Prop :=
  ∀ place slot : Nat, (slots index forest)[place]? = some slot → slot = next + place

/-- All functions that are called lie in a table of a given size. -/
def Known (functions index : Nat) (forest : List Tree) : Prop :=
  ∀ leaf ∈ leaves index forest, ∀ function, leaf.value.function? = some function →
    function < functions

end Forest

namespace Tree

/-- A tree that a stream encodes: the stream lists it in pre-order, no decider is without children,
the persistent actions are numbered in order and every function is known. -/
structure Encodes (tree : Tree) (atoms : Array Atom) (functions : Nat) : Prop where
  listing : tree.listing 0 = atoms.toList
  proper : tree.Proper
  numbered : ∀ place slot : Nat, (Forest.slots 0 [tree])[place]? = some slot → slot = place
  known : Forest.Known functions 0 [tree]

/-- What a traversal of a tree needs. -/
def needs (tree : Tree) : Capacities where
  atoms := tree.size
  slots := (Forest.owners 0 [tree]).length
  continuations := tree.sequences
  outstanding := (tree.leaves 0).length
  slotChanges := (Forest.owners 0 [tree]).length
  frames := tree.depth
  requests := (tree.leaves 0).countP fun leaf => leaf.value.atom.isDeferred

end Tree

mutual

/-- The actions of a tree are those among its nodes. -/
theorem Tree.map_leaves (index : Nat) : ∀ tree : Tree,
    (tree.leaves index).map (fun leaf => leaf.value.atom) =
      (tree.listing index).filter Atom.isAction
  | .action leaf => by simp [Tree.leaves, Tree.listing]
  | .decider rule children => by
      rw [Tree.leaves, Tree.listing, List.filter_cons_of_neg (by simp [Atom.isAction,
        Atom.isDecider, Atom.kind, NodeKind.isDecider]), Forest.map_leaves (index + 1) children]

theorem Forest.map_leaves (index : Nat) : ∀ forest : List Tree,
    (Forest.leaves index forest).map (fun leaf => leaf.value.atom) =
      (Forest.listing index forest).filter Atom.isAction
  | [] => rfl
  | tree :: rest => by
      rw [Forest.leaves, Forest.listing, List.map_append, List.filter_append,
        Tree.map_leaves index tree, Forest.map_leaves (index + tree.size) rest]

end

namespace Forest

/-- The slots are those among the nodes. -/
theorem slots_eq (index : Nat) (forest : List Tree) :
    slots index forest = (listing index forest).filterMap Atom.slot? := by
  have actions : (listing index forest).filterMap Atom.slot? =
      ((listing index forest).filter Atom.isAction).filterMap Atom.slot? := by
    rw [List.filterMap_filter]
    congr 1
    funext atom
    cases atom <;> rfl
  rw [actions, ← map_leaves, List.filterMap_map, slots]
  rfl

theorem atom_mem_listing {index : Nat} {forest : List Tree} {leaf : Entry Leaf}
    (member : leaf ∈ leaves index forest) : leaf.value.atom ∈ listing index forest := by
  have mapped := List.mem_map_of_mem (f := fun leaf : Entry Leaf => leaf.value.atom) member
  rw [map_leaves] at mapped
  exact List.mem_of_mem_filter mapped

@[simp] theorem listing_single (index : Nat) (tree : Tree) :
    listing index [tree] = tree.listing index := by
  rw [listing, listing, List.append_nil]

@[simp] theorem leaves_single (index : Nat) (tree : Tree) :
    leaves index [tree] = tree.leaves index := by
  rw [leaves, leaves, List.append_nil]

/-- The actions of a decider are those of its children. -/
theorem leaves_decider (index : Nat) (rule : Rule) (children : List Tree) :
    leaves index [.decider rule children] = leaves (index + 1) children := by
  rw [leaves_single, Tree.leaves]

theorem leaves_append (index : Nat) (first second : List Tree) :
    leaves index (first ++ second) = leaves index first ++ leaves (index + size first) second := by
  induction first generalizing index with
  | nil => rw [List.nil_append, leaves, List.nil_append, size, Nat.add_zero]
  | cons tree rest ih =>
    rw [List.cons_append, leaves, ih, leaves, List.append_assoc, size, Nat.add_assoc]

theorem leaves_cons (index : Nat) (tree : Tree) (rest : List Tree) :
    leaves index (tree :: rest) = leaves index [tree] ++ leaves (index + tree.size) rest := by
  rw [leaves, leaves_single]

theorem slots_cons (index : Nat) (tree : Tree) (rest : List Tree) :
    slots index (tree :: rest) = slots index [tree] ++ slots (index + tree.size) rest := by
  rw [slots, leaves_cons, List.filterMap_append]
  rfl

theorem owners_cons (index : Nat) (tree : Tree) (rest : List Tree) :
    owners index (tree :: rest) = owners index [tree] ++ owners (index + tree.size) rest := by
  rw [owners, leaves_cons, List.filter_append, List.map_append]
  rfl

/-- Each persistent action owns one slot. -/
theorem length_slots (index : Nat) (forest : List Tree) :
    (slots index forest).length = (owners index forest).length := by
  rw [slots, owners, List.length_map, List.length_filterMap_eq_countP,
    List.countP_eq_length_filter]
  congr 2
  funext leaf
  exact leaf.value.isSome_slot?

/-- The forest of a stream that lists a forest is that forest. -/
theorem ofAtoms_listing (index : Nat) :
    ∀ forest : List Tree, ofAtoms index (listing index forest) = forest
  | [] => by rw [listing, ofAtoms]
  | .action leaf :: rest => by
      have behind := ofAtoms_listing (index + 1) rest
      rw [listing, Tree.listing, Tree.size, List.singleton_append]
      cases leaf <;> rw [Leaf.atom, ofAtoms, behind]
  | .decider rule children :: rest => by
      have opened := ofAtoms_listing (index + 1) (children ++ rest)
      have inner : index + 1 + size children - (index + 1) = size children := by omega
      rw [listing_append] at opened
      rw [listing, Tree.listing, Tree.size, List.cons_append, ofAtoms, ← Nat.add_assoc, inner,
        opened, split_append]
  termination_by forest => size forest
  decreasing_by
    all_goals
      simp only [size, Tree.size, size_append]
      omega

/-- Different forests have different listings. -/
theorem listing_injective (index : Nat) {first second : List Tree}
    (same : listing index first = listing index second) : first = second := by
  rw [← ofAtoms_listing index first, same, ofAtoms_listing]

end Forest

namespace Survey
variable {size functions index : Nat} {forest rest : List Tree} {survey middle after : Survey}

/-- The stops of the deciders that are open at an index. -/
def openAt (survey : Survey) (index : Nat) : List Nat :=
  survey.stops.filter fun stop => decide (index < stop)

/-- The survey of a stream has come to a forest that it accepts: the forest lies within the deciders
that are open, and its slots are the next ones. -/
structure Admits (size functions index : Nat) (forest : List Tree) (survey : Survey) : Prop where
  proper : Forest.Proper forest
  fits : index + Forest.size forest ≤ size
  nested : survey.Nested size
  within : ∀ stop ∈ survey.openAt index, index + Forest.size forest ≤ stop
  numbered : Forest.Numbered survey.slotAtoms.size index forest
  known : Forest.Known functions index forest

/-- The survey has passed a forest and measured it. -/
structure Measures (size functions index : Nat) (forest : List Tree) (survey after : Survey) :
    Prop where
  walks : Walks size functions index (Forest.listing index forest) survey after
  nested : after.Nested size
  opened : after.openAt (index + Forest.size forest) = survey.openAt (index + Forest.size forest)
  slotAtoms : after.slotAtoms.toList = survey.slotAtoms.toList ++ Forest.owners index forest
  continuations : after.continuations = survey.continuations + Forest.sequences forest
  outstanding : after.outstanding = survey.outstanding + (Forest.leaves index forest).length
  requests : after.requests = survey.requests +
    (Forest.leaves index forest).countP fun leaf => leaf.value.atom.isDeferred
  frames : after.frames = max survey.frames ((survey.openAt index).length + Forest.depth forest)

/-- What is open at an index is what is left when the others are closed there. -/
theorem stops_close_eq (nested : survey.Nested size) (index : Nat) :
    (survey.close index).stops = survey.openAt index :=
  nested.stops_close index

theorem length_openAt_le (nested : survey.Nested size) (index : Nat) :
    (survey.openAt index).length ≤ survey.frames :=
  Nat.le_trans (List.length_filter_le _ _) nested.counted

/-- What is open at an index is among what is open at an earlier one. -/
theorem filter_openAt (survey : Survey) {later : Nat} (behind : index ≤ later) :
    (survey.openAt index).filter (fun stop => decide (later < stop)) = survey.openAt later := by
  rw [openAt, openAt, List.filter_filter]
  congr 1
  funext stop
  simp only [Bool.and_eq_left_iff_imp, decide_eq_true_eq]
  omega

namespace Admits
variable {tree : Tree}

theorem first (admits : survey.Admits size functions index (tree :: rest)) :
    survey.Admits size functions index [tree] where
  proper := ⟨admits.proper.1, trivial⟩
  fits := by
    have fits := admits.fits
    simp only [Forest.size] at fits ⊢
    omega
  nested := admits.nested
  within stop member := by
    have within := admits.within stop member
    simp only [Forest.size] at within ⊢
    omega
  numbered place slot found := by
    apply admits.numbered place slot
    rw [Forest.slots_cons, List.getElem?_append_left]
    · exact found
    · exact (List.getElem?_eq_some_iff.mp found).1
  known leaf member := by
    apply admits.known leaf
    rw [Forest.leaves_cons]
    exact List.mem_append_left _ member

/-- Behind the first tree, the survey admits the others. -/
theorem behind (admits : survey.Admits size functions index (tree :: rest))
    (measures : survey.Measures size functions index [tree] middle) :
    middle.Admits size functions (index + tree.size) rest where
  proper := admits.proper.2
  fits := by
    have fits := admits.fits
    rw [Forest.size] at fits
    omega
  nested := measures.nested
  within stop member := by
    have opened := measures.opened
    rw [Forest.size, Forest.size, Nat.add_zero] at opened
    rw [opened] at member
    obtain ⟨still, later⟩ := List.mem_filter.mp member
    have before : stop ∈ survey.openAt index := by
      refine List.mem_filter.mpr ⟨still, ?_⟩
      simp only [decide_eq_true_eq] at later ⊢
      omega
    have within := admits.within stop before
    rw [Forest.size] at within
    omega
  numbered place slot found := by
    have passed : middle.slotAtoms.size = survey.slotAtoms.size +
        (Forest.slots index [tree]).length := by
      rw [← Array.length_toList, measures.slotAtoms, List.length_append, Forest.length_slots,
        Array.length_toList]
    have numbered := admits.numbered ((Forest.slots index [tree]).length + place) slot (by
      rw [Forest.slots_cons, List.getElem?_append_right (Nat.le_add_right _ _),
        Nat.add_sub_cancel_left]
      exact found)
    omega
  known leaf member := by
    apply admits.known leaf
    rw [Forest.leaves_cons]
    exact List.mem_append_right _ member

end Admits

/-- A walk may go on behind another one. -/
theorem Walks.append {first second : List Atom}
    (walks : Walks size functions index first survey middle)
    (more : Walks size functions (index + first.length) second middle after) :
    Walks size functions index (first ++ second) survey after := by
  induction walks with
  | nil => exact more
  | cons visits _ ih =>
    rw [List.length_cons, Nat.add_comm _ 1, ← Nat.add_assoc] at more
    exact .cons visits (ih more)

namespace Measures

theorem nil (nested : survey.Nested size) (index : Nat) :
    survey.Measures size functions index [] survey where
  walks := .nil index survey
  nested := nested
  opened := rfl
  slotAtoms := (List.append_nil _).symm
  continuations := rfl
  outstanding := rfl
  requests := rfl
  frames := (Nat.max_eq_left (length_openAt_le nested index)).symm

/-- What is measured of the first tree adds up with what is measured of the others. -/
theorem cons {tree : Tree} (admits : survey.Admits size functions index (tree :: rest))
    (first : survey.Measures size functions index [tree] middle)
    (second : middle.Measures size functions (index + tree.size) rest after) :
    survey.Measures size functions index (tree :: rest) after := by
  have opened := first.opened
  rw [Forest.size, Forest.size, Nat.add_zero] at opened
  have total : index + Forest.size (tree :: rest) = index + tree.size + Forest.size rest := by
    rw [Forest.size, Nat.add_assoc]
  refine ⟨?_, second.nested, ?_, ?_, ?_, ?_, ?_, ?_⟩
  · rw [Forest.listing]
    have walks := first.walks
    rw [Forest.listing_single] at walks
    exact walks.append (by rw [Tree.length_listing]; exact second.walks)
  · rw [total, second.opened]
    have reached : index + tree.size ≤ index + tree.size + Forest.size rest := Nat.le_add_right _ _
    rw [← middle.filter_openAt reached, opened, survey.filter_openAt reached]
  · rw [second.slotAtoms, first.slotAtoms, Forest.owners_cons index tree rest,
      List.append_assoc]
  · rw [second.continuations, first.continuations]
    simp only [Forest.sequences]
    omega
  · rw [second.outstanding, first.outstanding, Forest.leaves_cons index tree rest,
      List.length_append, Nat.add_assoc]
  · rw [second.requests, first.requests, Forest.leaves_cons index tree rest, List.countP_append,
      Nat.add_assoc]
  · -- The deciders around the forest are open at each of its trees.
    have around := length_openAt_le admits.nested index
    have still : rest ≠ [] → (survey.openAt (index + tree.size)).length =
        (survey.openAt index).length := by
      intro used
      have more := Forest.size_pos used
      rw [openAt, openAt]
      congr 1
      apply List.filter_congr
      intro stop member
      have within := admits.within stop
      rw [total, openAt, List.mem_filter] at within
      simp only [decide_eq_true_eq] at within
      rw [decide_eq_decide]
      refine ⟨fun later => by omega, fun later => ?_⟩
      have := within ⟨member, later⟩
      omega
    rw [second.frames, first.frames, opened, Forest.depth, Forest.depth, Forest.depth]
    cases rest with
    | nil =>
      have fewer : (survey.openAt (index + tree.size)).length ≤ (survey.openAt index).length := by
        rw [← survey.filter_openAt (Nat.le_add_right index tree.size)]
        exact List.length_filter_le _ _
      simp only [Forest.depth]
      omega
    | cons next others =>
      rw [still (List.cons_ne_nil _ _)]
      omega

/-- An action is measured when it is visited. -/
theorem action {leaf : Leaf} (admits : survey.Admits size functions index [.action leaf]) :
    ∃ after, survey.Measures size functions index [.action leaf] after := by
  have closed := admits.nested.close index
  have stops := stops_close_eq admits.nested index
  have around := length_openAt_le admits.nested index
  suffices visited : ∃ after, Visits size functions index survey leaf.atom after ∧
      after.stops = (survey.close index).stops ∧
      after.slotAtoms.toList = survey.slotAtoms.toList ++ Forest.owners index [.action leaf] ∧
      after.continuations = survey.continuations ∧
      after.outstanding = survey.outstanding + 1 ∧
      after.requests = survey.requests + (if leaf.atom.isDeferred then 1 else 0) ∧
      after.frames = survey.frames by
    obtain ⟨after, visits, same, slotAtoms, continuations, outstanding, requests, frames⟩ := visited
    refine ⟨after, ?_, ⟨same ▸ closed.ordered, same ▸ closed.inside, ?_⟩, ?_, slotAtoms,
      continuations, ?_, ?_, ?_⟩
    · exact .cons visits (.nil _ _)
    · rw [same, frames]
      exact closed.counted
    · rw [openAt, same, stops, survey.filter_openAt (Nat.le_add_right _ _)]
    · rw [outstanding, Forest.leaves_single]
      rfl
    · rw [requests, Forest.leaves_single, Tree.leaves, List.countP_singleton]
    · rw [frames]
      simp only [Forest.depth, Tree.depth]
      omega
  cases leaf with
  | immediate function =>
    refine ⟨_, .immediate function ?_, rfl, ?_, rfl, rfl, rfl, rfl⟩
    · exact admits.known ⟨index, .immediate function⟩ (by simp [Tree.leaves]) function rfl
    · exact (List.append_nil _).symm
  | deferred action resource =>
    exact ⟨_, .deferred action resource, rfl, (List.append_nil _).symm, rfl, rfl, rfl, rfl⟩
  | persistent slot =>
    have next := admits.numbered 0 slot (by simp [Forest.slots, Tree.leaves, Leaf.atom, Atom.slot?])
    rw [Nat.add_zero] at next
    subst next
    refine ⟨_, .persistent, rfl, ?_, rfl, rfl, rfl, rfl⟩
    exact Array.toList_push

/-- A decider is measured with its children. -/
theorem decider {rule : Rule} {children : List Tree}
    (admits : survey.Admits size functions index [.decider rule children])
    (inner : ∀ {opened : Survey}, opened.Admits size functions (index + 1) children →
      ∃ after, opened.Measures size functions (index + 1) children after) :
    ∃ after, survey.Measures size functions index [.decider rule children] after := by
  have used := Forest.size_pos admits.proper.1.1
  have stops := stops_close_eq admits.nested index
  have total : index + Forest.size [.decider rule children] =
      index + 1 + Forest.size children := by
    simp only [Forest.size, Tree.size]
    omega
  have fits := admits.fits
  rw [total] at fits
  have within : ∀ stop ∈ survey.openAt index, index + 1 + Forest.size children ≤ stop :=
    fun stop member => total ▸ admits.within stop member
  obtain ⟨opened, opened_eq⟩ : ∃ opened, opened =
      (survey.close index).opened rule (index + 1 + Forest.size children) := ⟨_, rfl⟩
  have inside : ∀ parentStop ∈ (survey.close index).stops.head?,
      index + 1 + Forest.size children ≤ parentStop := by
    intro parentStop member
    rw [stops] at member
    exact within parentStop (List.mem_of_mem_head? member)
  have opened_stops : opened.stops =
      (index + 1 + Forest.size children) :: survey.openAt index := by
    rw [opened_eq, ← stops]
    rfl
  have nested : opened.Nested size := by
    rw [opened_eq]
    exact (admits.nested.close index).opened fits inside
  have admitted : opened.Admits size functions (index + 1) children := {
    proper := admits.proper.1.2
    fits := fits
    nested := nested
    within := by
      intro stop member
      rw [openAt, opened_stops] at member
      rcases List.mem_cons.mp (List.mem_of_mem_filter member) with rfl | outer
      · exact Nat.le_refl _
      · exact within stop outer
    numbered := by
      rw [opened_eq]
      have numbered := admits.numbered
      rwa [Forest.Numbered, Forest.slots, Forest.leaves_decider] at numbered
    known := by
      have known := admits.known
      rwa [Forest.Known, Forest.leaves_decider] at known }
  obtain ⟨after, measures⟩ := inner admitted
  have outer : opened.openAt (index + 1 + Forest.size children) =
      survey.openAt (index + 1 + Forest.size children) := by
    rw [openAt, opened_stops, List.filter_cons_of_neg (by simp), survey.filter_openAt (by omega)]
  have deeper : (opened.openAt (index + 1)).length = (survey.openAt index).length + 1 := by
    rw [openAt, opened_stops, List.filter_eq_self.mpr, List.length_cons]
    intro stop member
    simp only [decide_eq_true_eq]
    rcases List.mem_cons.mp member with rfl | outer
    · omega
    · have := within stop outer
      omega
  refine ⟨after, ?_, measures.nested, ?_, ?_, ?_, ?_, ?_, ?_⟩
  · rw [Forest.listing_single, Tree.listing]
    exact .cons (.decider rule _ (by omega) fits inside) (opened_eq ▸ measures.walks)
  · rw [total, measures.opened, outer]
  · rw [measures.slotAtoms, Forest.owners, Forest.owners, Forest.leaves_decider, opened_eq]
    rfl
  · rw [measures.continuations, opened_eq]
    simp only [Survey.opened, Survey.close, Forest.sequences, Tree.sequences]
    omega
  · rw [measures.outstanding, Forest.leaves_decider, opened_eq]
    rfl
  · rw [measures.requests, Forest.leaves_decider, opened_eq]
    rfl
  · rw [measures.frames, deeper, opened_eq]
    simp only [Survey.opened, stops, Forest.depth, Tree.depth]
    simp only [Survey.close]
    omega

end Measures

mutual

/-- A tree that the survey admits is measured. -/
theorem measures_tree (size functions index : Nat) (survey : Survey) :
    ∀ tree : Tree, survey.Admits size functions index [tree] →
      ∃ after, survey.Measures size functions index [tree] after
  | .action _, admits => Measures.action admits
  | .decider _ children, admits =>
      Measures.decider admits fun {opened} inner =>
        measures_forest size functions (index + 1) opened children inner

/-- A forest that the survey admits is measured, one tree after the other. -/
theorem measures_forest (size functions index : Nat) (survey : Survey) :
    ∀ forest : List Tree, survey.Admits size functions index forest →
      ∃ after, survey.Measures size functions index forest after
  | [], admits => ⟨survey, .nil admits.nested index⟩
  | tree :: rest, admits => by
      obtain ⟨middle, first⟩ := measures_tree size functions index survey tree admits.first
      obtain ⟨after, second⟩ := measures_forest size functions (index + tree.size) middle rest
        (admits.behind first)
      exact ⟨after, .cons admits first second⟩

end

/-- What a visit is like is what the visit comes to. -/
theorem Visits.visit_eq {atom : Atom} (visits : Visits size functions index survey atom after) :
    visit size functions index survey atom = .ok after := by
  cases visits with
  | immediate function known => simp only [visit, if_pos known]; rfl
  | deferred action resource => rfl
  | persistent => simp only [visit, close, if_true]
  | decider rule stop child inside nested =>
    simp only [visit, openDecider]
    rw [if_neg (by omega), if_neg (by omega)]
    split
    · next parentStop outer stops =>
      have := nested parentStop (by rw [stops]; rfl)
      rw [if_neg (by omega)]
      rfl
    · rfl

theorem Walks.walk_eq {atoms : List Atom} (walks : Walks size functions index atoms survey after) :
    walk size functions index atoms survey = .ok after := by
  induction walks with
  | nil => rfl
  | cons visits _ ih =>
    rw [walk, visits.visit_eq]
    exact ih

/-- The slots of the persistent actions on a walk are the next ones. -/
theorem Walks.numbered {atoms : List Atom} (walks : Walks size functions index atoms survey after)
    (place slot : Nat) (found : (atoms.filterMap Atom.slot?)[place]? = some slot) :
    slot = survey.slotAtoms.size + place := by
  induction walks generalizing place with
  | nil => simp at found
  | cons visits _ ih =>
    cases visits with
    | persistent =>
      cases place with
      | zero => simpa [Atom.slot?, eq_comm] using found
      | succ place =>
        have later := ih place (by simpa [Atom.slot?] using found)
        rw [Array.size_push] at later
        omega
    | _ => exact ih place found

end Survey

namespace Tree.Encodes
variable {tree other : Tree} {atoms : Array Atom} {functions : Nat}

/-- A stream encodes one tree at most. -/
theorem unique (encodes : tree.Encodes atoms functions) (others : other.Encodes atoms functions) :
    other = tree := by
  have same : Forest.listing 0 [other] = Forest.listing 0 [tree] := by
    rw [Forest.listing_single, Forest.listing_single, encodes.listing, others.listing]
  exact List.head_eq_of_cons_eq (Forest.listing_injective 0 same)

theorem size_eq (encodes : tree.Encodes atoms functions) : tree.size = atoms.size := by
  rw [← Tree.length_listing 0, encodes.listing, Array.length_toList]

/-- The root spans the stream. -/
theorem rootStop_eq (encodes : tree.Encodes atoms functions) :
    Survey.rootStop atoms = atoms.size := by
  have listing := encodes.listing
  rw [Survey.rootStop, ← Array.getElem?_toList, ← listing, ← encodes.size_eq]
  cases tree with
  | action leaf => cases leaf <;> rfl
  | decider rule children =>
    simp only [Tree.listing, List.getElem?_cons_zero, Option.bind_some, Atom.stop?,
      Option.getD_some, Tree.size, Nat.zero_add]

/-- A stream that encodes a tree is accepted, and its survey measures the tree. -/
theorem ofAtoms_eq (encodes : tree.Encodes atoms functions) (small : atoms.size < Survey.atomLimit)
    (few : functions ≤ Survey.functionLimit) :
    ∃ survey, Survey.ofAtoms atoms functions = .ok survey ∧
      Survey.Measures atoms.size functions 0 [tree] {} survey := by
  have single : Forest.size [tree] = atoms.size := by
    rw [Forest.size, Forest.size, Nat.add_zero, encodes.size_eq]
  obtain ⟨survey, measures⟩ := Survey.measures_tree atoms.size functions 0 {} tree {
    proper := ⟨encodes.proper, trivial⟩
    fits := by omega
    nested := ⟨.nil, by simp, Nat.le_refl 0⟩
    within := by simp [Survey.openAt]
    numbered := fun place slot found => by
      have next := encodes.numbered place slot found
      simpa using next
    known := encodes.known }
  refine ⟨survey, ?_, measures⟩
  have used : ¬atoms.isEmpty = true := by
    have := tree.size_pos
    have := encodes.size_eq
    simp only [Array.isEmpty_iff_size_eq_zero]
    omega
  have walks := measures.walks
  rw [Forest.listing_single, encodes.listing] at walks
  rw [Survey.ofAtoms, if_neg used, if_neg (by omega), if_neg (by omega),
    if_neg (by rw [encodes.rootStop_eq]; exact fun different => different rfl)]
  exact walks.walk_eq

end Tree.Encodes

namespace Shape
variable {β : Type} (shape : Shape β)

/-- The stream of a shape encodes its tree. -/
theorem encodes_tree : shape.tree.Encodes shape.atoms shape.functions.size where
  listing := shape.listing_tree
  proper := shape.proper_tree
  numbered place slot found := by
    rw [Forest.slots_eq, Forest.listing_single, shape.listing_tree] at found
    have next := shape.walks.numbered place slot found
    simpa using next
  known leaf member function calls := by
    have listed := Forest.atom_mem_listing member
    rw [Forest.listing_single, shape.listing_tree] at listed
    obtain ⟨index, leaf⟩ := leaf
    cases leaf with
    | immediate =>
      obtain rfl := Option.some.inj calls
      exact shape.walks.functions_known _ listed
    | deferred | persistent => cases calls

/-- A shape does not have more functions than can be told apart. -/
theorem functions_le : shape.functions.size ≤ Survey.functionLimit := by
  have accepted := shape.accepted
  by_contra many
  rw [Nat.not_le] at many
  unfold Survey.ofAtoms at accepted
  by_cases empty : shape.atoms.isEmpty
  · simp [empty] at accepted
  by_cases large : Survey.atomLimit ≤ shape.atoms.size
  · simp [empty, large] at accepted
  · simp [empty, large, many] at accepted

/-- The survey of a shape measures its tree. -/
theorem measures_tree :
    Survey.Measures shape.size shape.functions.size 0 [shape.tree] {} shape.survey := by
  obtain ⟨-, small, -, -⟩ := Survey.walks_of_ofAtoms shape.accepted
  obtain ⟨survey, accepted, measures⟩ := shape.encodes_tree.ofAtoms_eq small shape.functions_le
  obtain rfl := Except.ok.inj (accepted.symm.trans shape.accepted)
  exact measures

/-- The slots belong to the persistent actions of the tree, in their order. -/
theorem slotAtoms_tree : shape.slotAtoms.toList = Forest.owners 0 [shape.tree] :=
  shape.measures_tree.slotAtoms

/-- A shape needs what its tree needs. -/
theorem needs_tree : shape.needs = shape.tree.needs := by
  have measures := shape.measures_tree
  have slots : shape.slotAtoms.size = (Forest.owners 0 [shape.tree]).length := by
    rw [← shape.slotAtoms_tree, Array.length_toList]
  have continuations := measures.continuations
  have outstanding := measures.outstanding
  have requests := measures.requests
  have frames := measures.frames
  rw [Forest.leaves_single] at outstanding requests
  rw [Forest.sequences, Forest.sequences, Nat.add_zero, Nat.zero_add] at continuations
  rw [Nat.zero_add] at outstanding requests
  simp only [Survey.openAt, List.filter_nil, List.length_nil, Forest.depth, Nat.zero_add,
    Nat.zero_max, Nat.max_zero] at frames
  simp only [needs, Tree.needs, slots, continuations, outstanding, requests, frames, size_tree]

theorem ofAtoms_ok {atoms : Array Atom} {functions : Array (Action β)} {shape : Shape β}
    (accepted : ofAtoms atoms functions = .ok shape) :
    shape.atoms = atoms ∧ shape.functions = functions := by
  unfold ofAtoms at accepted
  split at accepted
  · obtain rfl := Except.ok.inj accepted
    exact ⟨rfl, rfl⟩
  · cases accepted

/-- A stream is accepted exactly if it is short enough, does not come with too many functions, and
encodes a tree. -/
theorem exists_ofAtoms_iff (atoms : Array Atom) (functions : Array (Action β)) :
    (∃ shape, ofAtoms atoms functions = .ok shape) ↔
      atoms.size < Survey.atomLimit ∧ functions.size ≤ Survey.functionLimit ∧
        ∃ tree : Tree, tree.Encodes atoms functions.size := by
  constructor
  · rintro ⟨shape, accepted⟩
    obtain ⟨rfl, rfl⟩ := ofAtoms_ok accepted
    exact ⟨(Survey.walks_of_ofAtoms shape.accepted).2.1, shape.functions_le, shape.tree,
      shape.encodes_tree⟩
  · rintro ⟨small, few, tree, encodes⟩
    obtain ⟨survey, accepted, -⟩ := encodes.ofAtoms_eq small few
    unfold ofAtoms
    split
    · exact ⟨_, rfl⟩
    · next refused =>
      rw [accepted] at refused
      cases refused

/-- The streams that are accepted are those that encode trees: they are not empty and are shorter
than the largest word of 32 bits, come with at most as many functions as there are words of 16 bits,
and list a tree in pre-order. The tree is unique, the slots belong to its persistent actions in
ascending order, and the shape needs exactly what the tree needs. -/
theorem ofAtoms_encodes {β : Type} (atoms : Array Atom) (functions : Array (Action β)) :
    ((∃ shape, ofAtoms atoms functions = .ok shape) ↔
      0 < atoms.size ∧ atoms.size < 0xFFFFFFFF ∧ functions.size ≤ 0x10000 ∧
        ∃ tree : Tree, tree.Encodes atoms functions.size) ∧
    ∀ shape, ofAtoms atoms functions = .ok shape →
      shape.atoms = atoms ∧ shape.functions = functions ∧
      ∃ tree : Tree, tree.Encodes atoms functions.size ∧
        (∀ other : Tree, other.Encodes atoms functions.size → other = tree) ∧
        shape.slotAtoms.toList = Forest.owners 0 [tree] ∧ Ascending shape.slotAtoms.toList ∧
        shape.needs = tree.needs := by
  constructor
  · rw [exists_ofAtoms_iff]
    constructor
    · rintro ⟨small, few, tree, encodes⟩
      exact ⟨encodes.size_eq ▸ tree.size_pos, small, few, tree, encodes⟩
    · rintro ⟨-, small, few, encodes⟩
      exact ⟨small, few, encodes⟩
  · intro shape accepted
    obtain ⟨rfl, rfl⟩ := ofAtoms_ok accepted
    exact ⟨rfl, rfl, shape.tree, shape.encodes_tree,
      fun other others => shape.encodes_tree.unique others, shape.slotAtoms_tree,
      shape.ascending_slotAtoms, shape.needs_tree⟩

/-- Two actions of a sequence, and a third one beside it. -/
def sampleTree : Tree :=
  .decider .concurrent
    [.decider .sequence [.action (.immediate 0), .action (.persistent 0)],
      .action (.persistent 1)]

def sampleAtoms : Array Atom :=
  #[.decider .concurrent 5, .decider .sequence 4, .immediate 0, .persistent 0, .persistent 1]

theorem encodes_sampleTree : sampleTree.Encodes sampleAtoms 1 where
  listing := rfl
  proper := by simp [sampleTree, Tree.Proper, Forest.Proper]
  numbered place slot found := by
    have owned : Forest.slots 0 [sampleTree] = [0, 1] := rfl
    rw [owned] at found
    rcases place with _ | _ | place <;> cases found <;> rfl
  known := by
    have calls : Forest.leaves 0 [sampleTree] =
        [⟨2, .immediate 0⟩, ⟨3, .persistent 0⟩, ⟨4, .persistent 1⟩] := rfl
    intro leaf member function named
    simp only [calls, List.mem_cons, List.not_mem_nil, or_false] at member
    rcases member with rfl | rfl | rfl <;> cases named
    exact Nat.zero_lt_one

/-- A function that ends at once. -/
def sampleFunctions : Array (Action Unit) := #[fun board seed _ _ => ⟨.success, board, seed⟩]

theorem ofAtoms_encodes_sample :
    ∃ shape, ofAtoms sampleAtoms sampleFunctions = .ok shape ∧
      shape.slotAtoms.toList = [3, 4] ∧ shape.needs = ⟨5, 2, 1, 3, 2, 2, 0⟩ ∧
      ∀ other : Tree, other.Encodes sampleAtoms 1 → other = sampleTree := by
  obtain ⟨accepts, describes⟩ := ofAtoms_encodes sampleAtoms sampleFunctions
  obtain ⟨shape, accepted⟩ := accepts.mpr
    ⟨by decide, by decide, by decide, sampleTree, encodes_sampleTree⟩
  obtain ⟨-, -, tree, encodes, unique, slotAtoms, -, needs⟩ := describes shape accepted
  obtain rfl := unique sampleTree encodes_sampleTree
  exact ⟨shape, accepted, slotAtoms, needs, unique⟩

end Shape

end BehaviorTree
