namespace BehaviorTree

/-- What the machine does next. -/
inductive Command where
  /-- The atom under the cursor is visited. -/
  | invoke
  /-- The last status is fed into the innermost open decider. -/
  | resume
  /-- Pending cancellations are carried out and the emitted states put into order. -/
  | cleanup
  | done
  /-- The traversal could not go on. -/
  | error
  deriving DecidableEq, Repr, Inhabited

namespace Command

/-- A terminal command is never left. -/
def isTerminal : Command → Bool
  | done | error => true
  | invoke | resume | cleanup => false

/-- Every command. -/
def all : List Command := [invoke, resume, cleanup, done, error]

/-- The written name of a command. -/
def name : Command → String
  | invoke => "Invoke"
  | resume => "Guard"
  | cleanup => "Cleanup"
  | done => "Done"
  | error => "Error"

/-- The command with a given written name. -/
def ofName? (text : String) : Option Command := all.find? (·.name == text)

@[simp] theorem ofName?_name (command : Command) : ofName? command.name = some command := by
  cases command <;> decide

end Command

end BehaviorTree
