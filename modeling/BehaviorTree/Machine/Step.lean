import BehaviorTree.Machine.Visit

namespace BehaviorTree

namespace Machine

/-- A sequence goes on after a success. It remembers the child that it reached if that one is
active. -/
def absorbSequence (machine : Machine) (frame : Frame) (reached : Nat) :
    Status → Checked (Frame × Machine)
  | .launch | .running => do
      let continuations ← machine.continuations.push ⟨frame.atom, reached⟩
      return (frame, { machine with continuations, cursor := frame.stop })
  | .success => .ok ({ frame with progress := .sequence machine.cursor }, machine)
  | .fail | .cancel => .ok (frame, { machine with cursor := frame.stop })

/-- A dynamic priority goes on after a failure; otherwise what lies behind the child is
abandoned. -/
def absorbDynamicPriority (machine : Machine) (frame : Frame) : Status → Frame × Machine
  | .launch | .running | .success =>
      (frame, { machine with
        pending := machine.pending.cover ⟨machine.cursor, frame.stop⟩
        cursor := frame.stop })
  | .fail | .cancel => (frame, machine)

/-- A concurrent decider goes on unless a child fails; then the whole decider is abandoned, and what
its children emitted is taken back. -/
def absorbConcurrent (machine : Machine) (frame : Frame) : Status → Checked (Frame × Machine)
  | .launch | .running => .ok ({ frame with progress := .concurrent .running }, machine)
  | .success => .ok (frame, machine)
  | .fail | .cancel => do
      let continuations ← machine.continuations.truncate frame.continuationMark
      let requests ← machine.requests.truncateLaunches frame.launchMark
      return (frame, { machine with
        continuations
        requests
        pending := machine.pending.cover ⟨frame.atom, frame.stop⟩
        cursor := frame.stop })

/-- The innermost open decider takes note of what its child delivered. -/
def absorb (machine : Machine) (frame : Frame) : Checked (Frame × Machine) :=
  match frame.progress with
  | .sequence reached => machine.absorbSequence frame reached machine.status
  | .dynamicPriority => .ok (machine.absorbDynamicPriority frame machine.status)
  | .concurrent _ => machine.absorbConcurrent frame machine.status

end Machine

namespace Tick
variable {β : Type}

/-- A decider that visits no more children delivers its result. -/
def leaveDecider (tick : Tick β) (setting : Setting β) (frame : Frame) (child : Status) :
    Checked (Tick β) := do
  let (_, frames) ← tick.machine.frames.pop
  let result := frame.result child
  let tick := { tick with machine.status := result, machine.frames := frames }
  let tick := (tick.log (.deciderLeft frame.atom result)).notify setting frame.atom
    (.leave ||| .fromBottom)
  return tick.proceed (if frames.isEmpty then .cleanup else .resume)

/-- A decider goes on with the child under the cursor, once nothing is pending. -/
def nextChild (tick : Tick β) (setting : Setting β) (frame : Frame) : Checked (Tick β) := do
  let tick := { tick with machine.frames := tick.machine.frames.setTop frame }
  let tick ← (tick.notify setting frame.atom (.leave ||| .fromTop)).drain setting
  return tick.proceed .invoke

/-- What a child delivered is fed into the innermost open decider. -/
def resume (tick : Tick β) (setting : Setting β) : Checked (Tick β) :=
  match tick.machine.frames.top? with
  | none => .ok (tick.proceed .cleanup)
  | some frame => do
    let child := tick.machine.status
    let tick := tick.notify setting frame.atom (.enter ||| .fromBottom)
    let (frame, machine) ← tick.machine.absorb frame
    let tick := { tick with machine }
    if frame.stop ≤ machine.cursor then tick.leaveDecider setting frame child
    else tick.nextChild setting frame

/-- The emitted continuations and changes are put into the order of the atoms. -/
def reorder (tick : Tick β) : Checked (Tick β) := do
  let machine := tick.machine
  let continuations ← Ordered.reorder machine.continuations.contents (← machine.frames.lend)
  let changes ← Ordered.reorder machine.changes.contents machine.changeScratch
  let tick := { tick with
    machine := { machine with
      continuations := machine.continuations.overwrite continuations.entries
      frames := machine.frames.restore continuations.slots
      changes := machine.changes.overwrite changes.entries
      changeScratch := changes.slots } }
  if continuations.linear && changes.linear then return tick
  return tick.log (.generalSort continuations.linear changes.linear)

/-- The last step of a traversal. -/
def cleanup (tick : Tick β) (setting : Setting β) : Checked (Tick β) := do
  let tick ← (← tick.drain setting).reorder
  require (decide (Ascending tick.machine.outstanding.contents.toList)) .outstandingOutOfOrder
  return tick.proceed .done

/-- One command is carried out; the machine then holds the next one. Terminal commands stay. -/
def step (tick : Tick β) (setting : Setting β) : Checked (Tick β) :=
  let machine := tick.machine
  let tick := tick.log (.stepStarted machine.command machine.cursor machine.status)
  match machine.command with
  | .invoke => tick.invoke setting
  | .resume => tick.resume setting
  | .cleanup => tick.cleanup setting
  | .done | .error => .ok tick

end Tick

end BehaviorTree
