namespace BehaviorTree

namespace Word

/-- The words of 8 bits lie below this bound. -/
def bound8 : Nat := 0x100

/-- The words of 16 bits lie below this bound. -/
def bound16 : Nat := 0x10000

/-- The words of 32 bits lie below this bound. -/
def bound32 : Nat := 0x100000000

end Word

/-- A broken precondition of the storage, of the machine or of a writer. A fault is no error
message: it says that the operation had no business being called, and nothing follows it. -/
inductive Fault where
  /-- A value was pushed onto full storage. -/
  | fullStorage
  /-- A value was popped from empty storage. -/
  | emptyStorage
  /-- A truncation asked for more values than there are. -/
  | growingTruncation
  /-- Storage was lent while it still held values. -/
  | busyStorage
  /-- A position outside an array was used. -/
  | outOfBounds
  /-- An entry was consumed at a cursor that does not stand on it. -/
  | consumedWithoutHit
  /-- A node has no index after its own in 32 bits. -/
  | indexOverflow
  /-- A decider was entered that has no child. -/
  | childlessDecider
  /-- An immediate action names a function that the shape does not hold. -/
  | unknownFunction
  /-- A persistent action does not own the slot that the cursor reached. -/
  | slotOutOfStep
  /-- A change of a persistent action has no slot to go to. -/
  | missingSlot
  /-- A decider was to be canceled, and only actions carry a state. -/
  | deciderCanceled
  /-- An outstanding action of this tick lies past the span to cancel. -/
  | outstandingPastSpan
  /-- The output of a reorder does not begin at the front of the array. -/
  | unfilledOutput
  /-- The outstanding actions of a finished tick do not ascend. -/
  | outstandingOutOfOrder
  /-- The state of an unfinished traversal was extracted. -/
  | unfinishedTraversal
  /-- The actor has no room for the state of the traversal. -/
  | actorTooSmall
  /-- A string to be written has more quotation marks in a row than are counted. -/
  | markRunTooLong
  /-- A traversal took more steps than any traversal of its shape can take. -/
  | stepLimit
  deriving DecidableEq, Repr

/-- A computation whose preconditions are checked. -/
abbrev Checked (α : Type) := Except Fault α

/-- Without the condition, the fault. -/
def require (condition : Bool) (fault : Fault) : Checked Unit :=
  if condition then .ok () else .error fault

end BehaviorTree
