import BehaviorTree.Proofs.Tree.Encoding
import BehaviorTree.Shape.Builder

namespace BehaviorTree
variable {α : Type}

mutual

/-- The functions that a call adds to the table, in their order. -/
def BuildCall.registered : BuildCall α → List α
  | .register function times => List.replicate times function
  | .immediate function => [function]
  | .decider _ children => Construction.registered children
  | .immediateAt _ | .deferred _ _ | .persistent => []

/-- The functions that a construction adds to the table. -/
def Construction.registered : List (BuildCall α) → List α
  | [] => []
  | call :: rest => call.registered ++ Construction.registered rest

end

mutual

/-- The number of slots that a call takes. -/
def BuildCall.slots : BuildCall α → Nat
  | .persistent => 1
  | .decider _ children => Construction.slots children
  | .register _ _ | .immediate _ | .immediateAt _ | .deferred _ _ => 0

/-- The number of slots that a construction takes. -/
def Construction.slots : List (BuildCall α) → Nat
  | [] => 0
  | call :: rest => call.slots + Construction.slots rest

end

mutual

/-- The trees that a call describes if there are some functions and some slots before: a new
immediate action calls the next function, of whose index 16 bits are kept, and a new persistent
action owns the next slot. -/
def BuildCall.trees (functions slots : Nat) : BuildCall α → List Tree
  | .register _ _ => []
  | .immediate _ => [.action (.immediate (functions % Survey.functionLimit))]
  | .immediateAt index => [.action (.immediate index)]
  | .deferred action resource => [.action (.deferred action resource)]
  | .persistent => [.action (.persistent slots)]
  | .decider rule children => [.decider rule (Construction.forest functions slots children)]

/-- The forest that a construction describes. -/
def Construction.forest (functions slots : Nat) : List (BuildCall α) → List Tree
  | [] => []
  | call :: rest =>
      call.trees functions slots ++
        Construction.forest (functions + call.registered.length) (slots + call.slots) rest

end

/-- The call makes a node. -/
def BuildCall.isNode : BuildCall α → Bool
  | .register _ _ => false
  | .immediate _ | .immediateAt _ | .deferred _ _ | .persistent | .decider _ _ => true

mutual

/-- The number of nodes that a call makes. -/
def BuildCall.nodes : BuildCall α → Nat
  | .register _ _ => 0
  | .immediate _ | .immediateAt _ | .deferred _ _ | .persistent => 1
  | .decider _ children => 1 + Construction.nodes children

/-- The number of nodes that a construction makes. -/
def Construction.nodes : List (BuildCall α) → Nat
  | [] => 0
  | call :: rest => call.nodes + Construction.nodes rest

end

mutual

/-- What a call and the calls inside it deliver, in the order of their returns, if there are some
functions and some nodes before. -/
def BuildCall.answers (functions index : Nat) : BuildCall α → List (BuildCall α × Returned)
  | .register _ 0 => []
  | .register function (times + 1) =>
      [(.register function (times + 1), ⟨(functions + times) % Survey.functionLimit, index⟩)]
  | .immediate function => [(.immediate function, ⟨index, index + 1⟩)]
  | .immediateAt function => [(.immediateAt function, ⟨index, index + 1⟩)]
  | .deferred action resource => [(.deferred action resource, ⟨index, index + 1⟩)]
  | .persistent => [(.persistent, ⟨index, index + 1⟩)]
  | .decider rule children =>
      Construction.answers functions (index + 1) children ++
        [(.decider rule children, ⟨index, index + 1 + Construction.nodes children⟩)]

/-- What the calls of a construction deliver. -/
def Construction.answers (functions index : Nat) :
    List (BuildCall α) → List (BuildCall α × Returned)
  | [] => []
  | call :: rest =>
      call.answers functions index ++
        Construction.answers (functions + call.registered.length) (index + call.nodes) rest

end

mutual

/-- The indices of the table that a call refers to. -/
def BuildCall.references : BuildCall α → List Nat
  | .immediateAt index => [index]
  | .decider _ children => Construction.references children
  | .register _ _ | .immediate _ | .deferred _ _ | .persistent => []

/-- The indices of the table that a construction refers to. -/
def Construction.references : List (BuildCall α) → List Nat
  | [] => []
  | call :: rest => call.references ++ Construction.references rest

end

mutual

/-- The nodes of a call that are made for a function of their own, each with that function. -/
def BuildCall.callers (index : Nat) : BuildCall α → List (Entry α)
  | .immediate function => [⟨index, function⟩]
  | .decider _ children => Construction.callers (index + 1) children
  | .register _ _ | .immediateAt _ | .deferred _ _ | .persistent => []

/-- The nodes of a construction that are made for a function of their own. -/
def Construction.callers (index : Nat) : List (BuildCall α) → List (Entry α)
  | [] => []
  | call :: rest => call.callers index ++ Construction.callers (index + call.nodes) rest

end

mutual

/-- The places of the nodes of a tree in pre-order, each decider behind its children. -/
def Tree.postOrder (index : Nat) : Tree → List Nat
  | .action _ => [index]
  | .decider _ children => Forest.postOrder (index + 1) children ++ [index]

/-- The places of the nodes of a forest, one tree after the other. -/
def Forest.postOrder (index : Nat) : List Tree → List Nat
  | [] => []
  | tree :: rest => tree.postOrder index ++ Forest.postOrder (index + tree.size) rest

end

namespace Forest

theorem postOrder_append (index : Nat) (first second : List Tree) :
    postOrder index (first ++ second) =
      postOrder index first ++ postOrder (index + size first) second := by
  induction first generalizing index with
  | nil => rw [List.nil_append, postOrder, List.nil_append, size, Nat.add_zero]
  | cons tree rest ih =>
    rw [List.cons_append, postOrder, ih, postOrder, List.append_assoc, size, Nat.add_assoc]

theorem slots_append (index : Nat) (first second : List Tree) :
    slots index (first ++ second) = slots index first ++ slots (index + size first) second := by
  rw [slots, leaves_append, List.filterMap_append]
  rfl

end Forest

mutual

/-- The node of an action stands in the listing at the place of the action. -/
theorem Tree.getElem?_listing (index : Nat) {leaf : Entry Leaf} :
    ∀ tree : Tree, leaf ∈ tree.leaves index →
      ∃ offset, leaf.atom = index + offset ∧ (tree.listing index)[offset]? = some leaf.value.atom
  | .action _, member => by
      obtain rfl := List.mem_singleton.mp member
      exact ⟨0, rfl, rfl⟩
  | .decider _ children, member => by
      obtain ⟨offset, place, found⟩ := Forest.getElem?_listing (index + 1) children member
      exact ⟨offset + 1, by omega, found⟩

theorem Forest.getElem?_listing (index : Nat) {leaf : Entry Leaf} :
    ∀ forest : List Tree, leaf ∈ Forest.leaves index forest →
      ∃ offset, leaf.atom = index + offset ∧
        (Forest.listing index forest)[offset]? = some leaf.value.atom
  | [], member => by cases member
  | tree :: rest, member => by
      rw [Forest.listing]
      rcases List.mem_append.mp member with first | later
      · obtain ⟨offset, place, found⟩ := Tree.getElem?_listing index tree first
        refine ⟨offset, place, ?_⟩
        rw [List.getElem?_append_left (List.getElem?_eq_some_iff.mp found).1, found]
      · obtain ⟨offset, place, found⟩ := Forest.getElem?_listing (index + tree.size) rest later
        refine ⟨tree.size + offset, by omega, ?_⟩
        rw [List.getElem?_append_right (by simp), Tree.length_listing, Nat.add_sub_cancel_left,
          found]

end

mutual

/-- A call makes as many nodes as its trees have. -/
@[simp] theorem BuildCall.size_trees (functions slots : Nat) :
    ∀ call : BuildCall α, Forest.size (call.trees functions slots) = call.nodes
  | .register _ _ | .immediate _ | .immediateAt _ | .deferred _ _ | .persistent => rfl
  | .decider _ children => by
      rw [BuildCall.trees, Forest.size, Tree.size, Forest.size, Nat.add_zero, BuildCall.nodes,
        Construction.size_forest functions slots children]

@[simp] theorem Construction.size_forest (functions slots : Nat) :
    ∀ calls : List (BuildCall α),
      Forest.size (Construction.forest functions slots calls) = Construction.nodes calls
  | [] => rfl
  | call :: rest => by
      rw [Construction.forest, Forest.size_append, BuildCall.size_trees functions slots call,
        Construction.size_forest _ _ rest, Construction.nodes]

end

mutual

/-- The persistent actions of a call own the slots that the call takes, in their order. -/
theorem BuildCall.slots_trees (functions slots index : Nat) : ∀ call : BuildCall α,
    Forest.slots index (call.trees functions slots) = List.range' slots call.slots
  | .register _ _ | .immediate _ | .immediateAt _ | .deferred _ _ | .persistent => rfl
  | .decider _ children => by
      rw [BuildCall.trees, Forest.slots, Forest.leaves_decider]
      exact Construction.slots_forest functions slots (index + 1) children

theorem Construction.slots_forest (functions slots index : Nat) :
    ∀ calls : List (BuildCall α),
      Forest.slots index (Construction.forest functions slots calls) =
        List.range' slots (Construction.slots calls)
  | [] => rfl
  | call :: rest => by
      rw [Construction.forest, Forest.slots_append,
        BuildCall.slots_trees functions slots index call, Construction.slots_forest _ _ _ rest,
        Construction.slots, List.range'_append_1]

end

mutual

/-- The nodes are delivered as they stand in the tree, each decider behind its children. -/
theorem BuildCall.postOrder_trees (functions slots index : Nat) : ∀ call : BuildCall α,
    ((call.answers functions index).filter fun answer => answer.1.isNode).map
        (fun answer => answer.2.index) =
      Forest.postOrder index (call.trees functions slots)
  | .register _ 0 | .register _ (_ + 1) | .immediate _ | .immediateAt _ | .deferred _ _
  | .persistent => rfl
  | .decider _ children => by
      rw [BuildCall.answers, BuildCall.trees, Forest.postOrder, Tree.postOrder, Forest.postOrder,
        List.append_nil, List.filter_append, List.map_append,
        Construction.postOrder_forest functions slots (index + 1) children]
      rfl

theorem Construction.postOrder_forest (functions slots index : Nat) :
    ∀ calls : List (BuildCall α),
      ((Construction.answers functions index calls).filter fun answer => answer.1.isNode).map
          (fun answer => answer.2.index) =
        Forest.postOrder index (Construction.forest functions slots calls)
  | [] => rfl
  | call :: rest => by
      rw [Construction.answers, Construction.forest, Forest.postOrder_append, List.filter_append,
        List.map_append, BuildCall.postOrder_trees functions slots index call,
        BuildCall.size_trees, Construction.postOrder_forest _ (slots + call.slots) _ rest]

end

mutual

/-- An immediate action calls a function that was registered, or one that the call refers to. -/
theorem BuildCall.function_lt (functions slots index : Nat) {leaf : Entry Leaf} {function : Nat}
    (calls : leaf.value.function? = some function) : ∀ call : BuildCall α,
    leaf ∈ Forest.leaves index (call.trees functions slots) →
      function ∈ call.references ∨ function < functions + call.registered.length
  | .register _ _, member => by cases member
  | .immediate _, member => by
      obtain rfl := List.mem_singleton.mp member
      obtain rfl := Option.some.inj calls
      exact .inr (Nat.lt_succ_of_le (Nat.mod_le _ _))
  | .immediateAt _, member => by
      obtain rfl := List.mem_singleton.mp member
      obtain rfl := Option.some.inj calls
      exact .inl List.mem_cons_self
  | .deferred _ _, member | .persistent, member => by
      obtain rfl := List.mem_singleton.mp member
      cases calls
  | .decider _ children, member => by
      rw [BuildCall.trees, Forest.leaves_decider] at member
      exact Construction.function_lt functions slots (index + 1) calls children member

theorem Construction.function_lt (functions slots index : Nat) {leaf : Entry Leaf} {function : Nat}
    (calls : leaf.value.function? = some function) : ∀ program : List (BuildCall α),
    leaf ∈ Forest.leaves index (Construction.forest functions slots program) →
      function ∈ Construction.references program ∨
        function < functions + (Construction.registered program).length
  | [], member => by cases member
  | call :: rest, member => by
      rw [Construction.forest, Forest.leaves_append] at member
      rw [Construction.references, Construction.registered, List.mem_append, List.length_append]
      rcases List.mem_append.mp member with first | later
      · rcases BuildCall.function_lt functions slots index calls call first with referred | before
        · exact .inl (.inl referred)
        · exact .inr (by omega)
      · rcases Construction.function_lt _ _ _ calls rest later with referred | before
        · exact .inl (.inr referred)
        · exact .inr (by omega)

end

mutual

/-- An action stands for each index that a call refers to. -/
theorem BuildCall.leaf_of_reference (functions slots index : Nat) {function : Nat} :
    ∀ call : BuildCall α, function ∈ call.references →
      ∃ place, ⟨place, .immediate function⟩ ∈ Forest.leaves index (call.trees functions slots)
  | .register _ _, member | .immediate _, member | .deferred _ _, member
  | .persistent, member => by cases member
  | .immediateAt _, member => by
      obtain rfl := List.mem_singleton.mp member
      exact ⟨index, List.mem_cons_self⟩
  | .decider _ children, member => by
      rw [BuildCall.trees, Forest.leaves_decider]
      exact Construction.leaf_of_reference functions slots (index + 1) children member

theorem Construction.leaf_of_reference (functions slots index : Nat) {function : Nat} :
    ∀ program : List (BuildCall α), function ∈ Construction.references program →
      ∃ place, ⟨place, .immediate function⟩ ∈
        Forest.leaves index (Construction.forest functions slots program)
  | [], member => by cases member
  | call :: rest, member => by
      rw [Construction.forest, Forest.leaves_append]
      rcases List.mem_append.mp member with first | later
      · obtain ⟨place, found⟩ := BuildCall.leaf_of_reference functions slots index call first
        exact ⟨place, List.mem_append_left _ found⟩
      · obtain ⟨place, found⟩ := Construction.leaf_of_reference _ _ _ rest later
        exact ⟨place, List.mem_append_right _ found⟩

end

mutual

/-- While the table is small, the index of a new function is that of its place in the table. -/
theorem BuildCall.leaf_of_caller (before after : List α) (slots index : Nat) {caller : Entry α} :
    ∀ call : BuildCall α, before.length + call.registered.length ≤ Survey.functionLimit →
      caller ∈ call.callers index →
        ∃ function, ⟨caller.atom, .immediate function⟩ ∈
            Forest.leaves index (call.trees before.length slots) ∧
          (before ++ call.registered ++ after)[function]? = some caller.value
  | .register _ _, _, member | .immediateAt _, _, member | .deferred _ _, _, member
  | .persistent, _, member => by cases member
  | .immediate function, few, member => by
      obtain rfl := List.mem_singleton.mp member
      have kept : before.length % Survey.functionLimit = before.length := Nat.mod_eq_of_lt few
      refine ⟨before.length, ?_, ?_⟩
      · rw [BuildCall.trees, kept]
        exact List.mem_cons_self
      · simp [BuildCall.registered]
  | .decider _ children, few, member => by
      rw [BuildCall.trees, Forest.leaves_decider]
      exact Construction.leaf_of_caller before after slots (index + 1) children few member

theorem Construction.leaf_of_caller (before after : List α) (slots index : Nat)
    {caller : Entry α} : ∀ program : List (BuildCall α),
      before.length + (Construction.registered program).length ≤ Survey.functionLimit →
      caller ∈ Construction.callers index program →
        ∃ function, ⟨caller.atom, .immediate function⟩ ∈
            Forest.leaves index (Construction.forest before.length slots program) ∧
          (before ++ Construction.registered program ++ after)[function]? = some caller.value
  | [], _, member => by cases member
  | call :: rest, few, member => by
      rw [Construction.registered, List.length_append] at few
      rw [Construction.forest, Forest.leaves_append, BuildCall.size_trees, Construction.registered]
      rcases List.mem_append.mp member with first | later
      · obtain ⟨function, stands, registered⟩ := BuildCall.leaf_of_caller before
          (Construction.registered rest ++ after) slots index call (by omega) first
        refine ⟨function, List.mem_append_left _ stands, ?_⟩
        simpa only [List.append_assoc] using registered
      · obtain ⟨function, stands, registered⟩ := Construction.leaf_of_caller
          (before ++ call.registered) after (slots + call.slots) (index + call.nodes) rest
          (by rw [List.length_append]; omega) later
        rw [List.length_append] at stands
        refine ⟨function, List.mem_append_right _ stands, ?_⟩
        simpa only [List.append_assoc] using registered

end

namespace Builder
variable (builder : Builder α)

/-- The builder once a forest is listed, functions are registered and slots are taken. -/
def extended (forest : List Tree) (functions : List α) (slots : Nat) : Builder α where
  atoms := builder.atoms ++ (Forest.listing builder.atoms.size forest).toArray
  functions := builder.functions ++ functions.toArray
  slots := builder.slots + slots

section
variable (forest : List Tree) (functions : List α) (slots : Nat)

@[simp] theorem size_atoms_extended :
    (builder.extended forest functions slots).atoms.size =
      builder.atoms.size + Forest.size forest := by
  simp [extended]

@[simp] theorem size_functions_extended :
    (builder.extended forest functions slots).functions.size =
      builder.functions.size + functions.length := by
  simp [extended]

@[simp] theorem slots_extended :
    (builder.extended forest functions slots).slots = builder.slots + slots := rfl

theorem extended_nil : builder.extended [] [] 0 = builder := by
  simp [extended, Forest.listing]

/-- What extends a builder twice extends it at once. -/
theorem extended_extended (more : List Tree) (others : List α) (taken : Nat) :
    (builder.extended forest functions slots).extended more others taken =
      builder.extended (forest ++ more) (functions ++ others) (slots + taken) := by
  rw [extended, size_atoms_extended, extended, extended, Forest.listing_append]
  simp [Nat.add_assoc]

end

theorem register_eq (function : α) :
    builder.register function = builder.extended [] [function] 0 := by
  simp [register, extended, Forest.listing]

theorem push_eq (leaf : Leaf) : builder.push leaf.atom = builder.extended [.action leaf] [] 0 := by
  simp [push, extended, Forest.listing, Tree.listing]

theorem takeSlot_eq : { builder with slots := builder.slots + 1 } = builder.extended [] [] 1 := by
  simp [extended, Forest.listing]

theorem returning_action (leaf : Leaf) (functions : List α) (slots : Nat) :
    (builder.extended [.action leaf] functions slots).returning builder.atoms.size =
      ⟨builder.atoms.size, builder.atoms.size + 1⟩ := by
  rw [returning, size_atoms_extended]
  rfl

theorem registerTimes_eq (function : α) (times : Nat) :
    builder.registerTimes function times =
      builder.extended [] (List.replicate times function) 0 := by
  induction times generalizing builder with
  | zero => exact builder.extended_nil.symm
  | succ times ih =>
    rw [registerTimes, ih, register_eq, extended_extended]
    rfl

/-- Once the children of a decider are made, its stop is set. -/
theorem close_eq (rule : Rule) (children : List Tree) (functions : List α) (slots : Nat) :
    { (builder.push (.decider rule 0)).extended children functions slots with
      atoms :=
        ((builder.push (.decider rule 0)).extended children functions slots).atoms.setIfInBounds
          builder.atoms.size (.decider rule (builder.atoms.size + 1 + Forest.size children)) } =
      builder.extended [.decider rule children] functions slots := by
  simp [push, extended, Forest.listing, Tree.listing]

mutual

/-- A call extends the builder as it describes, and delivers what it answers. -/
theorem call_eq (builder : Builder α) : ∀ call : BuildCall α,
    builder.call call =
      (builder.extended (call.trees builder.functions.size builder.slots) call.registered
          call.slots,
        (call.answers builder.functions.size builder.atoms.size).map Prod.snd)
  | .register function 0 => by
      rw [call]
      exact congrArg₂ Prod.mk builder.extended_nil.symm rfl
  | .register function (times + 1) => by
      have after : (builder.registerTimes function times).register function =
          builder.extended [] (List.replicate (times + 1) function) 0 := by
        rw [registerTimes_eq, register_eq, extended_extended, List.replicate_succ']
        rfl
      simp only [call]
      rw [after]
      simp [returning, nextFunction, registerTimes_eq, BuildCall.trees, BuildCall.registered,
        BuildCall.slots, BuildCall.answers, Forest.size]
  | .immediate function => by
      have after : (builder.register function).push (.immediate builder.nextFunction) =
          builder.extended [.action (.immediate builder.nextFunction)] [function] 0 := by
        rw [register_eq, ← Leaf.atom, push_eq, extended_extended]
        rfl
      simp only [call]
      rw [after, returning_action]
      rfl
  | .immediateAt index => by
      have after := builder.push_eq (.immediate index)
      simp only [call]
      rw [← Leaf.atom, after, returning_action]
      rfl
  | .deferred action resource => by
      have after := builder.push_eq (.deferred action resource)
      simp only [call]
      rw [← Leaf.atom, after, returning_action]
      rfl
  | .persistent => by
      have after : { builder with slots := builder.slots + 1 }.push (.persistent builder.slots) =
          builder.extended [.action (.persistent builder.slots)] [] 1 := by
        rw [takeSlot_eq, ← Leaf.atom, push_eq, extended_extended]
        rfl
      simp only [call]
      rw [after, returning_action]
      rfl
  | .decider rule children => by
      have inside := calls_eq (builder.push (.decider rule 0)) children
      have before : (builder.push (.decider rule 0)).atoms.size = builder.atoms.size + 1 :=
        Array.size_push _
      have size : ((builder.push (.decider rule 0)).calls children).1.atoms.size =
          builder.atoms.size + 1 + Construction.nodes children := by
        rw [inside, size_atoms_extended, before, Construction.size_forest]
      have closed := builder.close_eq rule
        (Construction.forest builder.functions.size builder.slots children)
        (Construction.registered children) (Construction.slots children)
      rw [Construction.size_forest] at closed
      simp only [call, returning, Array.size_setIfInBounds, size]
      rw [inside]
      refine congrArg₂ Prod.mk closed ?_
      rw [before, BuildCall.answers, List.map_append]
      rfl

theorem calls_eq (builder : Builder α) : ∀ program : List (BuildCall α),
    builder.calls program =
      (builder.extended (Construction.forest builder.functions.size builder.slots program)
          (Construction.registered program) (Construction.slots program),
        (Construction.answers builder.functions.size builder.atoms.size program).map Prod.snd)
  | [] => by
      rw [calls]
      exact congrArg₂ Prod.mk builder.extended_nil.symm rfl
  | call :: rest => by
      simp only [calls]
      rw [call_eq builder call, calls_eq _ rest, extended_extended]
      simp [Construction.forest, Construction.registered, Construction.slots, Construction.answers]

end

end Builder

namespace Construction
variable (program : List (BuildCall α))

/-- The builder behind a whole construction. -/
def builder : Builder α := (({} : Builder α).calls program).1

/-- What the calls of a whole construction deliver, in the order of their returns. -/
def returned : List Returned := (({} : Builder α).calls program).2

theorem builder_eq : builder program =
    ⟨(Forest.listing 0 (forest 0 0 program)).toArray, (registered program).toArray,
      slots program⟩ := by
  rw [builder, Builder.calls_eq]
  simp [Builder.extended]

theorem returned_eq : returned program = (answers 0 0 program).map Prod.snd := by
  rw [returned, Builder.calls_eq]
  rfl

/-- The stream of a construction encodes a tree exactly if the construction describes that tree
alone and calls no function that is not registered. -/
theorem encodes_iff (tree : Tree) :
    tree.Encodes (Forest.listing 0 (forest 0 0 program)).toArray (registered program).length ↔
      forest 0 0 program = [tree] ∧ Forest.Proper (forest 0 0 program) ∧
        ∀ index ∈ references program, index < (registered program).length := by
  constructor
  · intro encodes
    have single : forest 0 0 program = [tree] := by
      apply Forest.listing_injective 0
      rw [Forest.listing_single, encodes.listing]
    refine ⟨single, single ▸ ⟨encodes.proper, trivial⟩, fun index referred => ?_⟩
    obtain ⟨place, stands⟩ := leaf_of_reference 0 0 0 program referred
    rw [single] at stands
    exact encodes.known _ stands index rfl
  · rintro ⟨single, proper, known⟩
    refine ⟨?_, ?_, ?_, ?_⟩
    · rw [single, Forest.listing_single]
    · rw [single] at proper
      exact proper.1
    · intro place slot found
      rw [← single, slots_forest] at found
      obtain ⟨inside, rfl⟩ := List.getElem?_eq_some_iff.mp found
      rw [List.getElem_range', Nat.zero_add, Nat.one_mul]
    · intro leaf member function calls
      rw [← single] at member
      rcases function_lt 0 0 0 calls program member with referred | before
      · exact known function referred
      · omega

end Construction

/-- What is built is what is accepted as a stream. -/
theorem Builder.build_eq_ok_iff {β : Type} (builder : Builder (Action β)) (shape : Shape β) :
    builder.build = .ok shape ↔ Shape.ofAtoms builder.atoms builder.functions = .ok shape := by
  rw [build]
  split
  · next empty =>
    refine ⟨nofun, fun accepted => ?_⟩
    have used := shape.size_pos
    rw [Shape.size, (Shape.ofAtoms_ok accepted).1, Array.isEmpty_iff.mp empty] at used
    exact absurd used (Nat.lt_irrefl 0)
  · exact Iff.rfl

namespace Construction
variable {β : Type}

/-- A builder lists the forest that its calls describe. Its stream is the pre-order listing of the
forest, the persistent actions have the slots from 0 on, and each call that makes a node delivers
the place of its node. It builds a shape exactly if the forest is one tree without a childless
decider, the table does not have too many functions, and each index that is referred to belongs to
a function of the table; and then each immediate action that is made for a function calls it. -/
theorem builds (program : List (BuildCall (Action β)))
    (small : (builder program).atoms.size < 0xFFFFFFFF) :
    (builder program).atoms.toList = Forest.listing 0 (forest 0 0 program) ∧
    (builder program).functions.toList = registered program ∧
    Forest.slots 0 (forest 0 0 program) = List.range (builder program).slots ∧
    returned program = (answers 0 0 program).map Prod.snd ∧
    ((answers 0 0 program).filter fun answer => answer.1.isNode).map
        (fun answer => answer.2.index) =
      Forest.postOrder 0 (forest 0 0 program) ∧
    ((∃ shape, (builder program).build = .ok shape) ↔
      (∃ tree, forest 0 0 program = [tree]) ∧ Forest.Proper (forest 0 0 program) ∧
        (builder program).functions.size ≤ 0x10000 ∧
        ∀ index ∈ references program, index < (builder program).functions.size) ∧
    ∀ shape, (builder program).build = .ok shape →
      ∀ caller ∈ callers 0 program, ∃ function,
        shape.atom? caller.atom = some (.immediate function) ∧
          shape.function? function = some caller.value := by
  have built := builder_eq program
  rw [built] at small ⊢
  refine ⟨rfl, rfl, ?_, returned_eq program, postOrder_forest 0 0 0 program, ?_, ?_⟩
  · rw [slots_forest, List.range_eq_range']
  · simp only [Builder.build_eq_ok_iff, Shape.exists_ofAtoms_iff, List.size_toArray, encodes_iff]
    constructor
    · rintro ⟨-, few, tree, single, proper, known⟩
      exact ⟨⟨tree, single⟩, proper, few, known⟩
    · rintro ⟨⟨tree, single⟩, proper, few, known⟩
      exact ⟨small, few, tree, single, proper, known⟩
  · intro shape accepted caller member
    rw [Builder.build_eq_ok_iff] at accepted
    obtain ⟨atoms, functions⟩ := Shape.ofAtoms_ok accepted
    have few := shape.functions_le
    rw [functions] at few
    obtain ⟨function, stands, calls⟩ := leaf_of_caller [] [] 0 0 program
      (by simpa using few) member
    obtain ⟨offset, place, found⟩ := Forest.getElem?_listing 0 _ stands
    refine ⟨function, ?_, ?_⟩
    · rw [Shape.atom?, atoms, List.getElem?_toArray, place, Nat.zero_add]
      exact found
    · rw [Shape.function?, functions, List.getElem?_toArray]
      simpa using calls

/-- A function that ends at once. -/
def ending (status : Status) : Action Unit := fun board seed _ _ => ⟨status, board, seed⟩

/-- A sequence calls a function that was registered before; another one is called beside it. -/
def sample : List (BuildCall (Action Unit)) :=
  [.register (ending .success) 2,
    .decider .concurrent
      [.decider .sequence [.immediateAt 1, .persistent], .immediate (ending .fail)]]

theorem builds_sample :
    (builder sample).atoms.toList =
        [.decider .concurrent 5, .decider .sequence 4, .immediate 1, .persistent 0,
          .immediate 2] ∧
      (returned sample).map Returned.index = [1, 2, 3, 1, 4, 0] ∧
      ∃ shape, (builder sample).build = .ok shape ∧ ∃ function,
        shape.atom? 4 = some (.immediate function) ∧
          shape.function? function = some (ending .fail) := by
  have built := builder_eq sample
  have small : (builder sample).atoms.size < 0xFFFFFFFF := by
    rw [built]
    decide
  obtain ⟨atoms, functions, -, returns, -, succeeds, calls⟩ := builds sample small
  have proper : Forest.Proper (forest 0 0 sample) := by
    simp [sample, forest, BuildCall.trees, Forest.Proper, Tree.Proper]
  have few : (builder sample).functions.size = 3 := by
    rw [← Array.length_toList, functions]
    rfl
  obtain ⟨shape, accepted⟩ := succeeds.mpr
    ⟨⟨_, rfl⟩, proper, by rw [few]; decide, by rw [few]; decide⟩
  exact ⟨atoms, by rw [returns]; rfl, shape, accepted,
    calls shape accepted ⟨4, ending .fail⟩ List.mem_cons_self⟩

end Construction

end BehaviorTree
