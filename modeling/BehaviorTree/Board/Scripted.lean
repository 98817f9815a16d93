import BehaviorTree.Action

namespace BehaviorTree

/-- How a function chooses its answer to anything but a cancel request. -/
inductive Conduct where
  /-- The statuses in turn, and the last one for ever after. -/
  | script (answers : List Status)
  /-- A status drawn from the actor's random stream. -/
  | random (choices : List Status)
  /-- One status from a point in time on, and another before it. -/
  | switch (threshold : Time) (after before : Status)
  /-- The requested status. -/
  | echo
  deriving DecidableEq, Repr

/-- Another function's conduct that a call changes. -/
structure Override where
  requested : Status
  function : Nat
  answer : Status
  deriving DecidableEq, Repr

/-- How a function behaves. -/
structure Behavior where
  conduct : Conduct := .script [.success]
  onCancel : Status := .cancel
  /-- A cancel request draws a random value, which is dropped. -/
  drawsOnCancel : Bool := false
  overrides : List Override := []
  deriving DecidableEq, Repr, Inhabited

/-- A call that was made. -/
structure CallRecord where
  function : Nat
  requested : Status
  returned : Status
  time : Time
  deriving DecidableEq, Repr

/-- The behaviors of the functions that have one, and the calls so far. -/
structure ScriptedBoard where
  behaviors : List (Nat × Behavior) := []
  calls : Array CallRecord := #[]

namespace Conduct

/-- The answer, the conduct from then on, and the seed. -/
def answer (conduct : Conduct) (seed : Seed) (time : Time) (requested : Status) :
    Status × Conduct × Seed :=
  match conduct with
  | script [] => (.success, conduct, seed)
  | script [last] => (last, conduct, seed)
  | script (first :: rest) => (first, script rest, seed)
  | random choices =>
      let (word, seed) := seed.draw
      (choices.getD (word.toNat % choices.length) .success, conduct, seed)
  | switch threshold after before =>
      (if time.reached threshold then after else before, conduct, seed)
  | echo => (requested, conduct, seed)

end Conduct

namespace ScriptedBoard

/-- The behavior of a function; without one, it succeeds. -/
def behavior (board : ScriptedBoard) (function : Nat) : Behavior :=
  (board.behaviors.lookup function).getD {}

/-- The behavior of a function is replaced. -/
def setBehavior (board : ScriptedBoard) (function : Nat) (behavior : Behavior) : ScriptedBoard :=
  { board with
    behaviors :=
      (function, behavior) :: board.behaviors.filter fun entry => entry.1 != function }

def setConduct (board : ScriptedBoard) (function : Nat) (conduct : Conduct) : ScriptedBoard :=
  board.setBehavior function { board.behavior function with conduct }

/-- The overrides for a request take effect one after the other. -/
def override (board : ScriptedBoard) (overrides : List Override) (requested : Status) :
    ScriptedBoard :=
  (overrides.filter fun override => override.requested == requested).foldl
    (fun board override => board.setConduct override.function (.script [override.answer])) board

/-- The call of a function as an immediate action. -/
def action (function : Nat) : Action ScriptedBoard := fun board seed time requested =>
  let behavior := board.behavior function
  let (status, conduct, seed) :=
    if requested = .cancel then
      (behavior.onCancel, behavior.conduct,
        if behavior.drawsOnCancel then seed.draw.2 else seed)
    else behavior.conduct.answer seed time requested
  let board := (board.setConduct function conduct).override behavior.overrides requested
  { status
    board := { board with calls := board.calls.push ⟨function, requested, status, time⟩ }
    seed }

end ScriptedBoard

end BehaviorTree
