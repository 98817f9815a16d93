namespace BehaviorTree

/-- What a visit to a node delivers; the same values are passed into actions as the request. -/
inductive Status where
  | launch
  | running
  | success
  | fail
  | cancel
  deriving DecidableEq, Repr, Inhabited

namespace Status

/-- An active action was launched or is running, so it is still outstanding. -/
def isActive : Status → Bool
  | launch | running => true
  | success | fail | cancel => false

/-- A terminal status is one that is not active. -/
def isTerminal (status : Status) : Bool := !status.isActive

/-- The byte that stands for a status in a persisted actor. -/
def tag : Status → UInt8
  | launch => 0
  | running => 1
  | success => 2
  | fail => 3
  | cancel => 4

/-- The status that a byte stands for, if any. -/
def ofTag? : UInt8 → Option Status
  | 0 => some launch
  | 1 => some running
  | 2 => some success
  | 3 => some fail
  | 4 => some cancel
  | _ => none

/-- Every status, in the order of the tags. -/
def all : List Status := [launch, running, success, fail, cancel]

/-- The written name of a status. -/
def name : Status → String
  | launch => "Launch"
  | running => "Running"
  | success => "Success"
  | fail => "Fail"
  | cancel => "Cancel"

/-- The status with a given written name. -/
def ofName? (text : String) : Option Status := all.find? (·.name == text)

@[simp] theorem ofTag?_tag (status : Status) : ofTag? status.tag = some status := by
  cases status <;> rfl

@[simp] theorem ofName?_name (status : Status) : ofName? status.name = some status := by
  cases status <;> decide

end Status

end BehaviorTree
