import BehaviorTree.Machine.Command
import BehaviorTree.Status

namespace BehaviorTree

/-- Something worth reporting. -/
inductive LogEvent where
  | shapeAccepted (atoms functions depth : Nat)
  | statusMerged (actor atom : Nat) (status : Status)
  | machineConfigured (label : String)
  | tickFinished (actor : Nat) (result : Status)
      (continuations outstanding launches cancels : Nat)
  | stepStarted (command : Command) (cursor : Nat) (status : Status)
  | actionVisited (atom : Nat) (result : Status)
  | deciderLeft (atom : Nat) (result : Status)
  | staleStatus (atom : Nat) (status : Status)
  | launchReturned (atom : Nat)
  | cancelReturned (atom : Nat)
  | cancelReported (atom : Nat)
  | strayContinuation (atom child : Nat)
  | cursorPastEnd (cursor atoms : Nat)
  | frameOverflow (atom capacity : Nat)
  | generalSort (continuationsLinear changesLinear : Bool)
  | launchRequested (atom action : Nat)
  | cancelRequested (atom action : Nat)
  | spanDrained (start stop canceled : Nat)
  | cancelUnanswered (atom : Nat) (returned : Status)
  | cancelOutside (atom : Nat)
  deriving DecidableEq, Repr

/-- How severe a report is, most severe first. -/
inductive LogLevel where
  | warn
  | debug
  | trace
  deriving DecidableEq, Repr

namespace LogLevel

def name : LogLevel → String
  | warn => "WARN"
  | debug => "DEBUG"
  | trace => "TRACE"

/-- The rank grows as the severity falls. -/
def rank : LogLevel → Nat
  | warn => 0
  | debug => 1
  | trace => 2

/-- A listener at a level hears that level and the more severe ones. -/
def hears (listener level : LogLevel) : Bool := decide (level.rank ≤ listener.rank)

end LogLevel

/-- The value of a field of a report. -/
inductive LogValue where
  | number (value : Nat)
  | truth (value : Bool)
  | text (value : String)
  deriving DecidableEq, Repr

/-- A written report. -/
structure LogLine where
  level : LogLevel
  target : String
  message : String
  fields : List (String × LogValue)
  deriving DecidableEq, Repr

namespace LogEvent

private def traversal (level : LogLevel) (message : String)
    (fields : List (String × LogValue)) : LogLine :=
  ⟨level, "liz::vm::traverse", message, fields⟩

private def status (value : Status) : LogValue := .text value.name

/-- The written form of a report. -/
def line : LogEvent → LogLine
  | shapeAccepted atoms functions depth =>
      ⟨.debug, "liz::shape", "shape.validated",
        [("atoms", .number atoms), ("immediate_actions", .number functions),
          ("guard_depth", .number depth)]⟩
  | statusMerged actor atom merged =>
      ⟨.trace, "liz::actor", "actor.merge_action_state",
        [("actor", .number actor), ("index", .number atom), ("state", status merged)]⟩
  | machineConfigured label => ⟨.debug, "liz::vm", "vm.from_config", [("label", .text label)]⟩
  | tickFinished actor result continuations outstanding launches cancels =>
      ⟨.debug, "liz::vm", "vm.tick",
        [("actor", .number actor), ("result", status result),
          ("decider_states", .number continuations), ("action_states", .number outstanding),
          ("launches", .number launches), ("cancels", .number cancels)]⟩
  | stepStarted command cursor current =>
      traversal .trace "vm.step"
        [("command", .text command.name), ("index", .number cursor), ("state", status current)]
  | actionVisited atom result =>
      traversal .trace "vm.action" [("index", .number atom), ("result", status result)]
  | deciderLeft atom result =>
      traversal .trace "vm.decider.leave" [("index", .number atom), ("result", status result)]
  | staleStatus atom stale =>
      traversal .trace "stale immediate action state, relaunching"
        [("index", .number atom), ("state", status stale)]
  | launchReturned atom =>
      traversal .warn "immediate action returned Launch, treating as Running"
        [("index", .number atom)]
  | cancelReturned atom =>
      traversal .warn "immediate action returned an unrequested Cancel" [("index", .number atom)]
  | cancelReported atom =>
      traversal .warn "deferred action reported an unrequested Cancel" [("index", .number atom)]
  | strayContinuation atom child =>
      traversal .warn "sequence continuation outside its children"
        [("index", .number atom), ("resume", .number child)]
  | cursorPastEnd cursor atoms =>
      traversal .warn "invoke past the end of the shape"
        [("index", .number cursor), ("atoms", .number atoms)]
  | frameOverflow atom capacity =>
      traversal .warn "decider guard stack overflow"
        [("index", .number atom), ("capacity", .number capacity)]
  | generalSort continuationsLinear changesLinear =>
      traversal .debug "post-order reorder fell back to a general sort"
        [("deciders_linear", .truth continuationsLinear), ("changes_linear", .truth changesLinear)]
  | launchRequested atom action =>
      ⟨.trace, "liz::vm::request", "vm.request.launch",
        [("index", .number atom), ("action_id", .number action)]⟩
  | cancelRequested atom action =>
      ⟨.trace, "liz::vm::request", "vm.request.cancel",
        [("index", .number atom), ("action_id", .number action)]⟩
  | spanDrained start stop canceled =>
      ⟨.trace, "liz::vm::cancel", "vm.drain_cancellation_range",
        [("begin", .number start), ("end", .number stop), ("canceled", .number canceled)]⟩
  | cancelUnanswered atom returned =>
      ⟨.warn, "liz::vm::cancel", "immediate action did not acknowledge cancel",
        [("index", .number atom), ("returned", status returned)]⟩
  | cancelOutside atom =>
      ⟨.warn, "liz::vm::cancel", "cancel requested for an atom outside the shape",
        [("index", .number atom)]⟩

end LogEvent

end BehaviorTree
