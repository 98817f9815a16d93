import BehaviorTree.Json.Schema

namespace BehaviorTree

/-- Why a text is no configuration. A JSON text that is none at all says where. -/
inductive ConfigError where
  | json (cause : Option JsonError)
  | toml
  deriving DecidableEq, Repr

namespace ConfigError

def message : ConfigError → String
  | json _ => "failed to parse VM config (json)"
  | toml => "failed to parse VM config (toml)"

/-- The message, and behind it the one of the cause. -/
def fullMessage : ConfigError → String
  | json (some cause) => (json (some cause)).message ++ ": " ++ cause.message
  | error => error.message

end ConfigError

namespace Config

/-- A label that is null is absent; capacities that are missing are zero. -/
def ofJson? (value : Json) : Option Config := do
  let [label, capacities] ← value.record? ["label", "capacity"] | none
  let label ← match label with
    | none => some none
    | some .null => some none
    | some (.string (some text)) => some (some text)
    | some _ => none
  let capacities ← match capacities with
    | none => some {}
    | some capacities => Capacities.ofJson? capacities
  return { label, capacities }

def ofJsonText (text : String) : Except ConfigError Config := do
  let value ← (Json.ofText text).mapError fun cause => .json (some cause)
  match ofJson? value with
  | some config => return config
  | none => throw (.json none)

end Config

end BehaviorTree
