import BehaviorTree.Atom
import BehaviorTree.Capacities
import BehaviorTree.Json
import BehaviorTree.Machine.Command
import BehaviorTree.Machine.Request
import BehaviorTree.Status

namespace BehaviorTree

namespace Json

/-- A natural number below a limit, written without sign, fraction and exponent. -/
def natBelow? (limit : Nat) : Json → Option Nat
  | .number value =>
      if value.plain && !value.negative && decide (value.whole < limit) then some value.whole
      else none
  | _ => none

/-- A natural number of 32 bits. -/
def word? : Json → Option Nat := natBelow? Word.bound32

/-- The member with a name; it may be missing, but it must not stand there twice. -/
def member? (members : List (String × Json)) (name : String) : Option (Option Json) :=
  match members.filter fun member => member.1 == name with
  | [] => some none
  | [member] => some (some member.2)
  | _ :: _ :: _ => none

/-- The fields of a record with the given names, as far as they are there. A record is an object, in
which unknown members are passed over and no field stands twice, or an array of its fields in
order. -/
def record? (names : List String) : Json → Option (List (Option Json))
  | .array items =>
      if items.length ≤ names.length then
        some (items.map some ++ List.replicate (names.length - items.length) none)
      else none
  | .object members => do
      let named ← members.mapM fun member => do return (← member.1, member.2)
      names.mapM (member? named)
  | _ => none

/-- The fields of a record that are all there, and are all natural numbers below a limit. -/
def naturals? (limit : Nat) (names : List String) (value : Json) : Option (List Nat) := do
  (← record? names value).mapM fun field => do natBelow? limit (← field)

/-- The name and the content of the only member. -/
def case? : Json → Option (String × Json)
  | .object [(some name, content)] => some (name, content)
  | _ => none

/-- A constant of an enumeration is its name, or an object whose only member has that name and is
null. -/
def constant? {α : Type} (ofName? : String → Option α) : Json → Option α
  | .string (some name) => ofName? name
  | .object [(some name, .null)] => ofName? name
  | _ => none

end Json

def Status.ofJson? : Json → Option Status := Json.constant? Status.ofName?

def NodeKind.ofJson? : Json → Option NodeKind := Json.constant? NodeKind.ofName?

def Command.ofJson? : Json → Option Command := Json.constant? Command.ofName?

def RequestKind.ofJson? : Json → Option RequestKind := Json.constant? RequestKind.ofName?

/-- The function of an immediate action has 16 bits, and every other field of an atom 32. -/
def NodeKind.fieldLimit : NodeKind → Nat
  | .immediateAction => Word.bound16
  | .deferredAction | .persistentAction | .decider _ => Word.bound32

def Atom.ofJson? (value : Json) : Option Atom := do
  let (name, content) ← value.case?
  let kind ← NodeKind.ofName? name
  Atom.ofValues? kind (← content.naturals? kind.fieldLimit kind.fieldNames)

/-- The capacities of resources that are not mentioned are zero. -/
def Capacities.ofJson? (value : Json) : Option Capacities := do
  let fields ← value.record? (Resource.all.map Resource.name)
  let amounts ← fields.mapM fun field => (field.mapM Json.word?).map (·.getD 0)
  let [atoms, slots, continuations, outstanding, slotChanges, frames, requests] := amounts | none
  return { atoms, slots, continuations, outstanding, slotChanges, frames, requests }

def Request.ofJson? (value : Json) : Option Request := do
  let [action, resource, atom] ← value.naturals? Word.bound32 Request.fieldNames | none
  return { action, resource, atom }

def ActorRequest.ofJson? (value : Json) : Option ActorRequest := do
  let [some actor, some action, some resource, some atom, some kind] ←
      value.record? (["actor_id"] ++ Request.fieldNames ++ ["kind"])
    | none
  return {
    actor := ← actor.word?
    action := ← action.word?
    resource := ← resource.word?
    atom := ← atom.word?
    kind := ← RequestKind.ofJson? kind }

end BehaviorTree
