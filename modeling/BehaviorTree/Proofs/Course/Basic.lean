import BehaviorTree.Machine.Visit
import BehaviorTree.Proofs.Tree.Basic

/-!
The course of a tick is told by recursion on the tree, without frames, cursors and marks.
-/

namespace BehaviorTree

/-- A call of an immediate action. -/
structure Call where
  atom : Nat
  function : Nat
  requested : Status
  returned : Status
  deriving DecidableEq, Repr

/-- What the course of a tick depends on: its setting, and the actor as it was before. -/
structure Scene (β : Type) extends Setting β where
  actor : Actor

namespace Scene
variable {β : Type}

/-- The status that the actor remembers of an action. -/
def remembered (scene : Scene β) (atom : Nat) : Option Status := scene.actor.outstanding.find? atom

/-- The action was outstanding before the tick. -/
def wasActive (scene : Scene β) (atom : Nat) : Bool := (scene.remembered atom).any Status.isActive

/-- The place at which a sequence starts: the child that the actor remembers, if it lies in the
span, and else the first one. -/
def start (scene : Scene β) (sequence stop : Nat) : Nat :=
  match scene.actor.continuations.find? sequence with
  | some child => if sequence + 1 ≤ child ∧ child < stop then child else sequence + 1
  | none => sequence + 1

/-- A fresh entry owes a cancel, except the launch of a deferred action, whose request is taken
back. -/
def owes (scene : Scene β) (entry : Entry Status) : Bool :=
  entry.value.isActive &&
    !(entry.value == .launch && (scene.shape.atom? entry.atom).any Atom.isDeferred)

/-- The requests for the deferred actions among the canceled atoms. -/
def cancelRequests (scene : Scene β) (canceled : List Nat) : List Request :=
  canceled.filterMap fun atom =>
    match scene.shape.atom? atom with
    | some (.deferred action resource) => some ⟨action, resource, atom⟩
    | some (.immediate _) | some (.persistent _) | some (.decider _ _) | none => none

/-- What a function replies to a request. -/
def reply (scene : Scene β) (board : β) (seed : Seed) (function : Nat) (requested : Status) :
    Reply β :=
  match scene.shape.function? function with
  | some action => action board seed scene.time requested
  | none => ⟨.fail, board, seed⟩

/-- The slots after the persistent actions among the canceled atoms have been canceled. -/
def slotsAfter (scene : Scene β) (canceled : List Nat) : Array Status :=
  scene.actor.slots.mapIdx fun slot status =>
    if scene.shape.slotAtoms[slot]?.any fun atom => decide (atom ∈ canceled) then .cancel
    else status

end Scene

/-- How far the course of a tick has come. -/
structure Course (β : Type) where
  board : β
  seed : Seed
  /-- The calls of immediate actions, in order. -/
  calls : List Call := []
  /-- The nodes that were visited, in order. -/
  visited : List Nat := []
  /-- The children at which sequences were left, in the order in which they were left. -/
  continuations : List (Entry Nat) := []
  /-- The actions that were left outstanding, in the order of their visits. -/
  outstanding : List (Entry Status) := []
  launches : List Request := []
  /-- The atoms that were canceled, in order. -/
  canceled : List Nat := []
  /-- The span that is abandoned and will be canceled before the next visit. -/
  pending : Span := .empty
  /-- What the actor remembers of atoms before this one has been dealt with. -/
  frontier : Nat := 0

namespace Course
variable {β : Type}

/-- An immediate action is called. -/
def call (course : Course β) (scene : Scene β) (atom function : Nat) (requested : Status) :
    Status × Course β :=
  let reply := scene.reply course.board course.seed function requested
  (reply.status, { course with
    board := reply.board
    seed := reply.seed
    calls := course.calls ++ [⟨atom, function, requested, reply.status⟩] })

/-- An action is outstanding after this tick. -/
def stay (course : Course β) (atom : Nat) (status : Status) : Course β :=
  { course with outstanding := course.outstanding ++ [⟨atom, status⟩] }

/-- A launch of a deferred action is requested. -/
def launch (course : Course β) (request : Request) : Course β :=
  { course with launches := course.launches ++ [request] }

/-- An action delivers its status, given what is remembered of it. -/
def deliver (course : Course β) (scene : Scene β) (atom : Nat) : Leaf → Status × Course β
  | .immediate function =>
      let requested := if scene.wasActive atom then .running else .launch
      let (returned, course) := course.call scene atom function requested
      let result := returned.normalized
      (result, if result = .running then course.stay atom .running else course)
  | .deferred action resource =>
      match scene.remembered atom with
      | none => (.launch, (course.launch ⟨action, resource, atom⟩).stay atom .launch)
      | some status =>
          if status.isActive then (.running, course.stay atom .running)
          else (status.normalized, course)
  | .persistent slot =>
      match scene.actor.slots[slot]? with
      | none => (.fail, course)
      | some status =>
          if status.isActive then (.running, course.stay atom status)
          else (status.normalized, course)

/-- An action is visited. -/
def visit (course : Course β) (scene : Scene β) (atom : Nat) (leaf : Leaf) : Status × Course β :=
  { course with visited := course.visited ++ [atom], frontier := atom + 1 }.deliver scene atom leaf

/-- A decider is visited. -/
def enter (course : Course β) (decider : Nat) : Course β :=
  { course with visited := course.visited ++ [decider] }

/-- A sequence is left at a child. -/
def record (course : Course β) (sequence child : Nat) : Course β :=
  { course with continuations := course.continuations ++ [⟨sequence, child⟩] }

/-- A span is given up. -/
def abandon (course : Course β) (span : Span) : Course β :=
  { course with pending := course.pending.cover span }

/-- What was recorded and launched since an earlier moment is taken back. -/
def takeBack (course earlier : Course β) : Course β :=
  { course with continuations := earlier.continuations, launches := earlier.launches }

/-- An action is canceled. -/
def cancel (course : Course β) (scene : Scene β) (atom : Nat) : Course β :=
  let course := { course with canceled := course.canceled ++ [atom] }
  match scene.shape.atom? atom with
  | some (.immediate function) => (course.call scene atom function .cancel).2
  | some (.deferred _ _) | some (.persistent _) | some (.decider _ _) | none => course

def cancelAll (course : Course β) (scene : Scene β) (atoms : List Nat) : Course β :=
  atoms.foldl (fun course atom => course.cancel scene atom) course

/-- The abandoned atoms that owe a cancel, largest first: those that were outstanding before the
tick and have not been dealt with, and those that this tick left outstanding. -/
def toCancel (course : Course β) (scene : Scene β) : List Nat :=
  let carried := scene.actor.outstanding.entries.toList.filter fun entry =>
    course.pending.contains entry.atom && decide (course.frontier ≤ entry.atom) &&
      entry.value.isActive
  let fresh := course.outstanding.filter fun entry =>
    decide (course.pending.start ≤ entry.atom) && scene.owes entry
  (carried.map Entry.atom).reverse ++ (fresh.map Entry.atom).reverse

/-- What is abandoned is canceled, and nothing is abandoned any more. -/
def drain (course : Course β) (scene : Scene β) : Course β :=
  if course.pending.isEmpty then course
  else
    { course with
      pending := .empty
      frontier := max course.frontier course.pending.stop
      outstanding := course.outstanding.filter fun entry =>
        decide (entry.atom < course.pending.start) }.cancelAll scene (course.toCancel scene)

end Course

mutual

/-- A node is visited, once what was abandoned has been canceled. -/
def Tree.interpret {β : Type} (scene : Scene β) (index : Nat) :
    Tree → Course β → Status × Course β
  | .action leaf, course => (course.drain scene).visit scene index leaf
  | .decider .sequence children, course =>
      Forest.sequence scene index (scene.start index (index + 1 + Forest.size children))
        (index + 1) children ((course.drain scene).enter index)
  | .decider .dynamicPriority children, course =>
      Forest.dynamicPriority scene (index + 1 + Forest.size children) (index + 1) children
        ((course.drain scene).enter index)
  | .decider .concurrent children, course =>
      Forest.concurrent scene ⟨index, index + 1 + Forest.size children⟩
        ((course.drain scene).enter index) .success (index + 1) children
        ((course.drain scene).enter index)

/-- The children of a sequence are visited from a start on until one does not succeed; if that one
is active, it is recorded. A start within a child opens that child, and the sequence goes on with
the children of that child. -/
def Forest.sequence {β : Type} (scene : Scene β) (decider start index : Nat) :
    List Tree → Course β → Status × Course β
  | [], course => (.success, course)
  | tree :: rest, course =>
      if index + tree.size ≤ start then
        Forest.sequence scene decider start (index + tree.size) rest course
      else
        let (status, course) :=
          match tree, decide (index < start) with
          | .decider _ children, true =>
              Forest.sequence scene decider start (index + 1) children course
          | tree, _ =>
              let (status, course) := tree.interpret scene index course
              (status, if status.isActive then course.record decider index else course)
        if status = .success then
          Forest.sequence scene decider start (index + tree.size) rest course
        else (status, course)

/-- The first child that does not fail decides, and what lies behind it is abandoned. -/
def Forest.dynamicPriority {β : Type} (scene : Scene β) (stop index : Nat) :
    List Tree → Course β → Status × Course β
  | [], course => (.fail, course)
  | tree :: rest, course =>
      let (status, course) := tree.interpret scene index course
      if status = .fail then
        Forest.dynamicPriority scene stop (index + tree.size) rest course
      else (status, course.abandon ⟨index + tree.size, stop⟩)

/-- All children are visited unless one fails; then the whole span is abandoned, and what the
children recorded and launched is taken back. -/
def Forest.concurrent {β : Type} (scene : Scene β) (span : Span) (entered : Course β)
    (aggregate : Status) (index : Nat) : List Tree → Course β → Status × Course β
  | [], course => (aggregate, course)
  | tree :: rest, course =>
      let (status, course) := tree.interpret scene index course
      if status = .fail then (.fail, (course.takeBack entered).abandon span)
      else
        Forest.concurrent scene span entered (if status.isActive then .running else aggregate)
          (index + tree.size) rest course

end

namespace Scene
variable {β : Type}

/-- Nothing has happened yet. -/
def opening (scene : Scene β) (board : β) : Course β := { board, seed := scene.actor.seed }

/-- The course of an update, and what the root delivers. -/
def update (scene : Scene β) (board : β) : Status × Course β :=
  let (status, course) := scene.shape.tree.interpret scene 0 (scene.opening board)
  (status, course.drain scene)

/-- The course of a cancellation: the whole shape is abandoned. -/
def cancel (scene : Scene β) (board : β) : Course β :=
  ((scene.opening board).abandon ⟨0, scene.shape.size⟩).drain scene

end Scene

end BehaviorTree
