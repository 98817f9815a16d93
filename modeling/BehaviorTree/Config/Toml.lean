import BehaviorTree.Config.Json
import BehaviorTree.Toml.Reader

namespace BehaviorTree.Config
open BehaviorTree.Toml (Entries)

/-! ## Reading -/

/-- An amount is an integer of 32 bits without sign. -/
def amount? : Toml → Option Nat
  | .integer value => if 0 ≤ value ∧ value < Word.bound32 then some value.toNat else none
  | _ => none

/-- Capacities are a table with the names of the resources, or an array in their order, of which
further items are passed over. A moment counts as a table whose only key names no resource. -/
def capacitiesOfToml? : Toml → Option Capacities
  | .table _ entries => do
      let amounts ← Resource.all.mapM fun resource =>
        ((entries.lookup resource.name).mapM amount?).map fun amount =>
          (resource, amount.getD 0)
      return .ofFn fun resource => (amounts.lookup resource).getD 0
  | .array items => do
      let amounts ← (items.take Resource.all.length).mapM amount?
      let amounts := Resource.all.zip amounts
      return .ofFn fun resource => (amounts.lookup resource).getD 0
  | .moment _ => some {}
  | _ => none

/-- Capacities that are missing are zero, and keys that say nothing to a configuration are passed
over. -/
def ofEntries? (entries : Entries) : Option Config := do
  let label ← match entries.find? "label" with
    | none => some none
    | some (.text text) => some (some text)
    | some _ => none
  let capacities ← match entries.find? "capacity" with
    | none => some {}
    | some value => capacitiesOfToml? value
  return { label, capacities }

def ofTomlText (text : String) : Except ConfigError Config :=
  match (Toml.ofText? text.toList).bind ofEntries? with
  | some config => .ok config
  | none => .error .toml

/-! ## Writing -/

/-- A line with a key and a number. -/
def amountLine (resource : Resource) (amount : Nat) : List Char :=
  resource.name.toList ++ [' ', '=', ' '] ++ Nat.toDigits 10 amount ++ ['\n']

/-- A line with the label, if there is one, and an empty one behind it. -/
def labelLines : Option String → Checked (List Char)
  | none => .ok []
  | some label => do
      return "label = ".toList ++ (← Toml.Quoted.write label.toList) ++ ['\n', '\n']

/-- The table of all capacities. -/
def capacityLines (capacities : Capacities) : List Char :=
  "[capacity]\n".toList ++
    Resource.all.flatMap fun resource => amountLine resource (capacities.get resource)

/-- The written form: the label and the table of all capacities. Only a label with an uncountable
run of quotation marks has none. -/
def toTomlText (config : Config) : Checked String := do
  return String.ofList ((← labelLines config.label) ++ capacityLines config.capacities)

end BehaviorTree.Config
