import BehaviorTree.Actor

namespace BehaviorTree

/-- Why bytes are no persisted actor. -/
inductive LayoutError where
  | tooSmall
  | wrongMagic
  | unsupportedVersion (version : Nat)
  | endOfInput (bits : Nat)
  | slotsOverrun
  | capacityTooLarge (capacity : Nat)
  | countOverCapacity (array : String) (count capacity : Nat)
  | unknownTag (tag : Nat)
  | trailingBytes
  | notAscending (actor : Nat)
  /-- The cause lies in a named part of the layout. -/
  | within (part : String) (cause : LayoutError)
  deriving DecidableEq, Repr

namespace Layout

/-- The bytes that every persisted actor starts with. -/
def magic : List UInt8 := [0x4c, 0x49, 0x5a, 0x41]

def version : Nat := 1

/-- The largest capacity of a sparse array that a reader accepts. -/
def capacityLimit : Nat := 0x100000

end Layout

def LayoutError.message : LayoutError → String
  | .tooSmall => "actor payload too small"
  | .wrongMagic => "invalid actor magic"
  | .unsupportedVersion version =>
      s!"unsupported actor layout version {version} (reader supports <= {Layout.version})"
  | .endOfInput bits => s!"unexpected end of input while reading u{bits}"
  | .slotsOverrun => "persistent states overrun payload"
  | .capacityTooLarge capacity =>
      s!"capacity {capacity} exceeds the supported maximum {Layout.capacityLimit}"
  | .countOverCapacity array count capacity =>
      s!"{array} state count {count} exceeds capacity {capacity}"
  | .unknownTag tag => s!"unknown execution state tag {tag}"
  | .trailingBytes => "unexpected trailing bytes in actor payload"
  | .notAscending actor => s!"actor {actor} sparse state arrays are not strictly ascending"
  | .within part cause => part ++ ": " ++ cause.message

namespace Layout

/-- A number in a fixed count of bytes, least significant first. -/
def word : Nat → Nat → List UInt8
  | 0, _ => []
  | bytes + 1, value => UInt8.ofNat value :: word bytes (value / 256)

/-- The number that bytes stand for, least significant first. -/
def value : List UInt8 → Nat
  | [] => 0
  | byte :: bytes => byte.toNat + 256 * value bytes

/-- The persisted form of an actor, in which all numbers are little-endian. The magic bytes, the
version and two reserved bytes that readers ignore are followed by the seed and the counts of the
sparse arrays, the identity and the blackboard handle, then the slots, the continuations and the
outstanding actions. A sparse array is its capacity, its atoms and then its values. -/
def encode (actor : Actor) : List UInt8 :=
  magic ++ word 2 version ++ word 2 0 ++
    word 8 actor.seed.toNat ++
    word 4 actor.continuations.count ++ word 4 actor.outstanding.count ++
    word 4 actor.id ++ word 8 actor.handle.toNat ++
    word 4 actor.slots.size ++ actor.slots.toList.map Status.tag ++
    word 4 actor.continuations.capacity ++
    actor.continuations.entries.toList.flatMap (fun entry => word 4 entry.atom) ++
    actor.continuations.entries.toList.flatMap (fun entry => word 4 entry.value) ++
    word 4 actor.outstanding.capacity ++
    actor.outstanding.entries.toList.flatMap (fun entry => word 4 entry.atom) ++
    actor.outstanding.entries.toList.map (fun entry => entry.value.tag)

/-- A step of reading: the value that the next bytes stand for, and the bytes after them. -/
abbrev Reader (α : Type) := List UInt8 → Except LayoutError (α × List UInt8)

/-- A number in a fixed count of bytes. -/
def readWord (bytes : Nat) : Reader Nat := fun input =>
  if input.length < bytes then .error (.endOfInput (8 * bytes))
  else .ok (value (input.take bytes), input.drop bytes)

/-- A status in one byte. -/
def readStatus : Reader Status
  | [] => .error (.endOfInput 8)
  | byte :: input =>
      match Status.ofTag? byte with
      | some status => .ok (status, input)
      | none => .error (.unknownTag byte.toNat)

/-- A number of values in a row. -/
def readMany {α : Type} (reader : Reader α) : Nat → Reader (List α)
  | 0, input => .ok ([], input)
  | count + 1, input => do
    let (first, input) ← reader input
    let (rest, input) ← readMany reader count input
    return (first :: rest, input)

/-- Errors are placed in a named part of the layout. -/
def inPart {α : Type} (part : String) (outcome : Except LayoutError α) : Except LayoutError α :=
  outcome.mapError (.within part)

/-- The capacity of a sparse array. -/
def readCapacity : Reader Nat := fun input => do
  let (capacity, input) ← readWord 4 input
  if capacityLimit < capacity then throw (.capacityTooLarge capacity)
  return (capacity, input)

/-- The entries that keys and values make up, as a sparse array. -/
def sparse {ν : Type} (capacity : Nat) (fill : ν) (atoms : List Nat) (values : List ν) :
    Option (SparseStates ν) :=
  (SparseStates.empty capacity fill).replace? (List.zipWith Entry.mk atoms values).toArray

/-- The body of the layout, after the magic bytes and the version. -/
def readBody (input : List UInt8) : Except LayoutError Actor := do
  let (seed, input) ← readWord 8 input
  let (continuationCount, input) ← readWord 4 input
  let (outstandingCount, input) ← readWord 4 input
  let (id, input) ← readWord 4 input
  let (handle, input) ← readWord 8 input
  let (slotCount, input) ← readWord 4 input
  if input.length < slotCount then throw .slotsOverrun
  let slotBytes := input.take slotCount
  let (continuationCapacity, input) ←
    inPart "decider states" (readCapacity (input.drop slotCount))
  if continuationCapacity < continuationCount then
    throw (.countOverCapacity "decider" continuationCount continuationCapacity)
  let (slots, _) ← inPart "persistent state" (readMany readStatus slotCount slotBytes)
  let (deciders, input) ← readMany (readWord 4) continuationCount input
  let (children, input) ← readMany (readWord 4) continuationCount input
  let (outstandingCapacity, input) ← inPart "action states" (readCapacity input)
  if outstandingCapacity < outstandingCount then
    throw (.countOverCapacity "action" outstandingCount outstandingCapacity)
  let (actions, input) ← readMany (readWord 4) outstandingCount input
  let (statuses, input) ← inPart "action state" (readMany readStatus outstandingCount input)
  unless input.isEmpty do throw .trailingBytes
  let some continuations := sparse continuationCapacity 0 deciders children
    | throw (.countOverCapacity "decider" continuationCount continuationCapacity)
  let some outstanding := sparse outstandingCapacity .fail actions statuses
    | throw (.countOverCapacity "action" outstandingCount outstandingCapacity)
  let actor : Actor :=
    { id
      handle := UInt64.ofNat handle
      seed := UInt64.ofNat seed
      slots := slots.toArray
      continuations
      outstanding }
  unless actor.isAscending do throw (.notAscending id)
  return actor

/-- The actor that bytes persist. -/
def decode (input : List UInt8) : Except LayoutError Actor := do
  if input.length < 8 then throw .tooSmall
  if input.take 4 ≠ magic then throw .wrongMagic
  let (layoutVersion, input) ← readWord 2 (input.drop 4)
  let (_, input) ← readWord 2 input
  if version < layoutVersion then throw (.unsupportedVersion layoutVersion)
  readBody input

end Layout

end BehaviorTree
