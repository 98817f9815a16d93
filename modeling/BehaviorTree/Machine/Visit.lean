import BehaviorTree.Machine.Drain

namespace BehaviorTree

/-- What a call that was no cancel request delivers: a launch counts as running, and a cancel that
nobody asked for as a failure. -/
def Status.normalized : Status → Status
  | .launch => .running
  | .cancel => .fail
  | .running => .running
  | .success => .success
  | .fail => .fail

namespace Tick
variable {β : Type}

/-- What is requested of an immediate action: to go on if it is outstanding, else to start. -/
def requestOf (tick : Tick β) (atom : Nat) : Option Status → Status × Tick β
  | none => (.launch, tick)
  | some previous =>
      if previous.isActive then (.running, tick)
      else (.launch, tick.log (.staleStatus atom previous))

/-- Answers that are out of place are reported. -/
def logReturned (tick : Tick β) (atom : Nat) : Status → Tick β
  | .launch => tick.log (.launchReturned atom)
  | .cancel => tick.log (.cancelReturned atom)
  | .running | .success | .fail => tick

/-- An immediate action with a known previous status is called, and stays outstanding while it is
running. -/
def answerImmediate (tick : Tick β) (setting : Setting β) (atom function : Nat)
    (previous : Option Status) : Checked (Status × Tick β) := do
  let (requested, tick) := tick.requestOf atom previous
  match setting.shape.function? function with
  | none => throw .unknownFunction
  | some action =>
    let (returned, tick) := tick.call setting atom function action requested
    let tick := tick.logReturned atom returned
    if returned.normalized = .running then
      return (.running, ← tick.pushOutstanding atom .running)
    return (returned.normalized, tick)

/-- An immediate action answers once its previous status has been looked up. -/
def visitImmediate (tick : Tick β) (setting : Setting β) (atom function : Nat) :
    Checked (Status × Tick β) := do
  let (previous, tick) ← tick.takeOutstanding atom
  tick.answerImmediate setting atom function previous

/-- A launch is requested of a deferred action, which is outstanding from now on. -/
def launch (tick : Tick β) (atom action resource : Nat) : Checked (Tick β) := do
  let requests ← tick.machine.requests.pushLaunch ⟨action, resource, atom⟩
  let tick := { tick with machine.requests := requests }.log (.launchRequested atom action)
  tick.pushOutstanding atom .launch

/-- A deferred action is launched on its first visit; afterwards the status that was reported for it
decides. -/
def answerDeferred (tick : Tick β) (atom action resource : Nat) :
    Option Status → Checked (Status × Tick β)
  | none => do return (.launch, ← tick.launch atom action resource)
  | some .launch => do return (.running, ← tick.pushOutstanding atom .running)
  | some .running => do return (.running, ← tick.pushOutstanding atom .running)
  | some .cancel => return (.fail, tick.log (.cancelReported atom))
  | some .success => return (.success, tick)
  | some .fail => return (.fail, tick)

/-- A deferred action answers once its previous status has been looked up. -/
def visitDeferred (tick : Tick β) (atom action resource : Nat) :
    Checked (Status × Tick β) := do
  let (previous, tick) ← tick.takeOutstanding atom
  tick.answerDeferred atom action resource previous

/-- The status of a persistent action is that of its slot, which has to be the one that was
found. -/
def answerPersistent (tick : Tick β) (atom slot : Nat) (found : Option Nat) :
    Checked (Status × Tick β) := do
  require (found == some slot) .slotOutOfStep
  match tick.actor.slots[slot]? with
  | none => return (.fail, tick)
  | some .launch => return (.running, ← tick.pushOutstanding atom .launch)
  | some .running => return (.running, ← tick.pushOutstanding atom .running)
  | some .cancel => return (.fail, tick)
  | some .success => return (.success, tick)
  | some .fail => return (.fail, tick)

/-- A persistent action answers once its slot has been looked up. -/
def visitPersistent (tick : Tick β) (setting : Setting β) (atom slot : Nat) :
    Checked (Status × Tick β) := do
  let (_, tick) ← tick.takeOutstanding atom
  let (found, tick) ← tick.takeSlot setting atom
  tick.answerPersistent atom slot found

/-- The status of an action is delivered to the deciders around it. -/
def deliver (tick : Tick β) (setting : Setting β) (atom : Nat) (result : Status) : Tick β :=
  let tick := tick.log (.actionVisited atom result)
  let tick := { tick with machine.status := result, machine.cursor := atom + 1 }
  (tick.notify setting atom (.leave ||| .fromBottom)).proceed .resume

/-- A sequence goes on at the child that the actor remembers, if that lies in its span. -/
def resumeAt (tick : Tick β) (frame : Frame) (firstChild : Nat) : Option Nat → Nat × Frame × Tick β
  | none => (firstChild, frame, tick)
  | some child =>
      if firstChild ≤ child ∧ child < frame.stop then
        (child, { frame with progress := .sequence child }, tick)
      else (firstChild, frame, tick.log (.strayContinuation frame.atom child))

/-- Where a decider goes on. Of a sequence that has to be looked up. -/
def resumption (tick : Tick β) (frame : Frame) : Checked (Nat × Frame × Tick β) := do
  let firstChild ← frame.firstChild
  match frame.progress with
  | .dynamicPriority | .concurrent _ => return (firstChild, frame, tick)
  | .sequence _ => do
    let (remembered, tick) ← tick.takeContinuation frame.atom
    return tick.resumeAt frame firstChild remembered

/-- There is no room for the frame of one more decider. -/
def overflow (tick : Tick β) (frame : Frame) : Tick β :=
  (tick.log (.frameOverflow frame.atom tick.machine.frames.capacity)).proceed .error

/-- A decider that has just been entered has not succeeded yet. -/
def failing (tick : Tick β) : Tick β := { tick with machine.status := .fail }

/-- A decider opens its frame, and the visit goes on with the given child. -/
def openAt (tick : Tick β) (setting : Setting β) (start : Nat) (frame : Frame) :
    Checked (Tick β) := do
  let frames ← tick.machine.frames.push frame
  let tick := { tick with machine.frames := frames, machine.cursor := start }
  return (tick.notify setting frame.atom (.leave ||| .fromTop)).proceed .invoke

/-- A decider opens a frame, and the visit goes on with one of its children. -/
def enterDecider (tick : Tick β) (setting : Setting β) (frame : Frame) : Checked (Tick β) := do
  if tick.machine.frames.isFull then return tick.overflow frame
  require (← frame.hasChildren) .childlessDecider
  let (start, frame, tick) ← tick.failing.resumption frame
  tick.openAt setting start frame

/-- The frame of a decider as it is entered now. -/
def frameFor (tick : Tick β) (index : Nat) (rule : Rule) (stop : Nat) : Frame :=
  ⟨index, stop, tick.machine.continuations.count, tick.machine.requests.launchCount,
    Frame.initialProgress (index + 1) rule⟩

/-- The atom at an index is visited. -/
def visitAtom (tick : Tick β) (setting : Setting β) (index : Nat) : Atom → Checked (Tick β)
  | .immediate function => do
      let (result, tick) ← tick.visitImmediate setting index function
      return tick.deliver setting index result
  | .deferred action resource => do
      let (result, tick) ← tick.visitDeferred index action resource
      return tick.deliver setting index result
  | .persistent slot => do
      let (result, tick) ← tick.visitPersistent setting index slot
      return tick.deliver setting index result
  | .decider rule stop => tick.enterDecider setting (tick.frameFor index rule stop)

/-- The atom under the cursor is visited. -/
def invoke (tick : Tick β) (setting : Setting β) : Checked (Tick β) :=
  let index := tick.machine.cursor
  match setting.shape.atom? index with
  | none => .ok ((tick.log (.cursorPastEnd index setting.shape.size)).proceed .error)
  | some atom => (tick.notify setting index (.enter ||| .fromTop)).visitAtom setting index atom

end Tick

end BehaviorTree
