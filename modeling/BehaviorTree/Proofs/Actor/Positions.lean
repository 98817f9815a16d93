import BehaviorTree.Proofs.Actor.Layout

namespace BehaviorTree

namespace Layout

/-- How reading at positions ends without a value: the bytes are refused, something outside an array
is accessed, or a sum is too large. -/
inductive Stop where
  | refused (cause : LayoutError)
  | outOfBounds
  | overflow
  deriving DecidableEq, Repr

/-- A step of reading at a cursor: the value, and the cursor behind it. -/
abbrev Walk (α : Type) := Nat → Except Stop (α × Nat)

namespace Walk
variable {α : Type}

/-- The sum of two positions. -/
def sum (position step : Nat) : Except Stop Nat :=
  if position + step < 2 ^ 64 then .ok (position + step) else .error .overflow

/-- The bytes between two positions. -/
def slice (bytes : List UInt8) (start stop : Nat) : Except Stop (List UInt8) :=
  if start ≤ stop ∧ stop ≤ bytes.length then .ok ((bytes.drop start).take (stop - start))
  else .error .outOfBounds

/-- The byte at a position. -/
def byteAt (bytes : List UInt8) (position : Nat) : Except Stop UInt8 :=
  match bytes[position]? with
  | some byte => .ok byte
  | none => .error .outOfBounds

/-- The first values of an array of given size are lent. -/
def lend (count size : Nat) : Except Stop Unit :=
  if count ≤ size then .ok () else .error .outOfBounds

/-- The cause of a refusal is placed in a named part of the layout. -/
def inPart (part : String) (outcome : Except Stop α) : Except Stop α :=
  outcome.mapError fun
    | .refused cause => .refused (.within part cause)
    | .outOfBounds => .outOfBounds
    | .overflow => .overflow

/-- A number of values in a row. -/
def many (walk : Walk α) : Nat → Walk (List α)
  | 0, cursor => .ok ([], cursor)
  | count + 1, cursor => do
    let (first, cursor) ← walk cursor
    let (rest, cursor) ← many walk count cursor
    return (first :: rest, cursor)

variable (bytes : List UInt8)

/-- A number in a fixed count of bytes. -/
def word (width : Nat) : Walk Nat := fun cursor => do
  let stop ← sum cursor width
  if bytes.length < stop then throw (.refused (.endOfInput (8 * width)))
  let taken ← slice bytes cursor stop
  return (value taken, stop)

/-- A status in one byte. -/
def status : Walk Status := fun cursor => do
  if bytes.length ≤ cursor then throw (.refused (.endOfInput 8))
  let tag ← byteAt bytes cursor
  let cursor ← sum cursor 1
  match Status.ofTag? tag with
  | some status => return (status, cursor)
  | none => throw (.refused (.unknownTag tag.toNat))

/-- The capacity of a sparse array. -/
def capacity : Walk Nat := fun cursor => do
  let (capacity, cursor) ← word bytes 4 cursor
  if capacityLimit < capacity then throw (.refused (.capacityTooLarge capacity))
  return (capacity, cursor)

/-- The sparse array whose entries are made up of keys and values. -/
def gather {ν : Type} (capacity : Nat) (fill : ν) (atoms : List Nat) (values : List ν) :
    Except Stop (SparseStates ν) :=
  match sparse capacity fill atoms values with
  | some states => .ok states
  | none => .error .outOfBounds

/-- The body of the layout. The slots are read at a saved position, once the capacity behind them
is known. -/
def body (cursor : Nat) : Except Stop Actor := do
  let (seed, cursor) ← word bytes 8 cursor
  let (continuationCount, cursor) ← word bytes 4 cursor
  let (outstandingCount, cursor) ← word bytes 4 cursor
  let (id, cursor) ← word bytes 4 cursor
  let (handle, cursor) ← word bytes 8 cursor
  let (slotCount, slotStart) ← word bytes 4 cursor
  let slotStop ← sum slotStart slotCount
  if bytes.length < slotStop then throw (.refused .slotsOverrun)
  let (continuationCapacity, cursor) ← inPart "decider states" (capacity bytes slotStop)
  if continuationCapacity < continuationCount then
    throw (.refused (.countOverCapacity "decider" continuationCount continuationCapacity))
  let (slots, _) ← inPart "persistent state" (many (status bytes) slotCount slotStart)
  lend continuationCount continuationCapacity
  let (deciders, cursor) ← many (word bytes 4) continuationCount cursor
  let (children, cursor) ← many (word bytes 4) continuationCount cursor
  let (outstandingCapacity, cursor) ← inPart "action states" (capacity bytes cursor)
  if outstandingCapacity < outstandingCount then
    throw (.refused (.countOverCapacity "action" outstandingCount outstandingCapacity))
  lend outstandingCount outstandingCapacity
  let (actions, cursor) ← many (word bytes 4) outstandingCount cursor
  let (statuses, cursor) ← inPart "action state" (many (status bytes) outstandingCount cursor)
  unless cursor = bytes.length do throw (.refused .trailingBytes)
  let continuations ← gather continuationCapacity 0 deciders children
  let outstanding ← gather outstandingCapacity .fail actions statuses
  let actor : Actor :=
    { id
      handle := UInt64.ofNat handle
      seed := UInt64.ofNat seed
      slots := slots.toArray
      continuations
      outstanding }
  unless actor.isAscending do throw (.refused (.notAscending id))
  return actor

/-- The actor that bytes persist. -/
def decode : Except Stop Actor := do
  if bytes.length < 8 then throw (.refused .tooSmall)
  if (← slice bytes 0 4) ≠ magic then throw (.refused .wrongMagic)
  let (layoutVersion, cursor) ← word bytes 2 4
  let (_, cursor) ← word bytes 2 cursor
  if version < layoutVersion then throw (.refused (.unsupportedVersion layoutVersion))
  body bytes cursor

end Walk

/-- A step at a cursor does what a reader does: it is refused for the same cause, or it comes to
something related. -/
def Meets {α β : Type} (related : α → β → Prop) (outcome : Except LayoutError α)
    (walked : Except Stop β) : Prop :=
  match outcome, walked with
  | .ok read, .ok reached => related read reached
  | .error cause, .error stop => stop = .refused cause
  | _, _ => False

namespace Meets
variable {α β γ δ : Type} {first : α → β → Prop} {related : γ → δ → Prop}

theorem bind {outcome : Except LayoutError α} {walked : Except Stop β}
    {next : α → Except LayoutError γ} {further : β → Except Stop δ}
    (meets : Meets first outcome walked)
    (rest : ∀ read reached, outcome = .ok read → first read reached →
      Meets related (next read) (further reached)) :
    Meets related (outcome >>= next) (walked >>= further) := by
  cases outcome with
  | error cause =>
    cases walked with
    | error stop => exact meets
    | ok reached => exact meets.elim
  | ok read =>
    cases walked with
    | error stop => exact meets.elim
    | ok reached => exact rest read reached rfl meets

theorem pure {value : α} {reached : β} (holds : first value reached) :
    Meets first (Pure.pure value) (Pure.pure reached) := holds

/-- The same check refuses both. -/
theorem guard {condition other : Prop} [Decidable condition] [Decidable other]
    {cause : LayoutError} {next : α → Except LayoutError γ} {further : β → Except Stop δ}
    {outcome : Except LayoutError γ} {walked : Except Stop δ} (same : condition ↔ other)
    (rest : ¬condition → Meets related outcome walked) :
    Meets related (if condition then throw cause >>= next else outcome)
      (if other then throw (.refused cause) >>= further else walked) := by
  by_cases held : condition
  · rw [if_pos held, if_pos (same.mp held)]
    rfl
  · rw [if_neg held, if_neg (mt same.mpr held)]
    exact rest held

/-- Both go on if the same condition holds. -/
theorem allow {condition other : Prop} [Decidable condition] [Decidable other]
    {cause : LayoutError} {next : α → Except LayoutError γ} {further : β → Except Stop δ}
    {outcome : Except LayoutError γ} {walked : Except Stop δ} (same : condition ↔ other)
    (rest : Meets related outcome walked) :
    Meets related (if condition then outcome else throw cause >>= next)
      (if other then walked else throw (.refused cause) >>= further) := by
  by_cases held : condition
  · rw [if_pos held, if_pos (same.mp held)]
    exact rest
  · rw [if_neg held, if_neg (mt same.mpr held)]
    rfl

theorem inPart {part : String} {outcome : Except LayoutError α} {walked : Except Stop β}
    (meets : Meets first outcome walked) :
    Meets first (Layout.inPart part outcome) (Walk.inPart part walked) := by
  cases outcome with
  | error cause =>
    cases walked with
    | error stop =>
      obtain rfl : stop = .refused cause := meets
      rfl
    | ok reached => exact meets.elim
  | ok read =>
    cases walked with
    | error stop => exact meets.elim
    | ok reached => exact meets

/-- A step that comes to the same value ends as the reader does. -/
theorem eq_mapError {outcome : Except LayoutError α} {walked : Except Stop α}
    (meets : Meets (fun read reached => reached = read) outcome walked) :
    walked = outcome.mapError .refused := by
  cases outcome with
  | error cause =>
    cases walked with
    | error stop => exact congrArg Except.error meets
    | ok reached => exact meets.elim
  | ok read =>
    cases walked with
    | error stop => exact meets.elim
    | ok reached => exact congrArg Except.ok meets

end Meets

/-- The values are the same, and the reader has left what stands from the cursor on. -/
structure At {α : Type} (bytes : List UInt8) (read : α × List UInt8) (reached : α × Nat) :
    Prop where
  value : reached.1 = read.1
  within : reached.2 ≤ bytes.length
  rest : read.2 = bytes.drop reached.2

/-- From any cursor within the bytes, a step at the cursor does what the reader does with the bytes
from there on. -/
def Tracks {α : Type} (bytes : List UInt8) (reader : Reader α) (walk : Walk α) : Prop :=
  ∀ cursor, cursor ≤ bytes.length → Meets (At bytes) (reader (bytes.drop cursor)) (walk cursor)

section Tracking
variable {α : Type} {bytes : List UInt8}

theorem sum_ok (short : bytes.length < 2 ^ 63) {position step : Nat}
    (within : position ≤ bytes.length) (small : step ≤ 2 ^ 32) :
    Walk.sum position step = .ok (position + step) :=
  if_pos (by omega)

theorem tracks_word (short : bytes.length < 2 ^ 63) {width : Nat} (small : width ≤ 8) :
    Tracks bytes (readWord width) (Walk.word bytes width) := by
  intro cursor within
  rw [readWord, Walk.word, sum_ok short within (by omega), List.length_drop]
  by_cases ends : bytes.length < cursor + width
  · rw [if_pos (by omega), bind_ok, if_pos ends]
    rfl
  · have slice : Walk.slice bytes cursor (cursor + width) =
        .ok ((bytes.drop cursor).take width) := by
      rw [Walk.slice, if_pos (by omega), Nat.add_sub_cancel_left]
    rw [if_neg (by omega), bind_ok, if_neg ends, slice]
    exact ⟨rfl, Nat.not_lt.mp ends, List.drop_drop⟩

theorem readWord_lt {width number : Nat} {input rest : List UInt8}
    (read : readWord width input = .ok (number, rest)) : number < 256 ^ width := by
  rw [readWord] at read
  split at read
  · cases read
  · obtain ⟨rfl, -⟩ := Prod.mk.inj (Except.ok.inj read)
    have below := value_lt (input.take width)
    rwa [List.length_take, Nat.min_eq_left (by omega)] at below

theorem tracks_status (short : bytes.length < 2 ^ 63) :
    Tracks bytes readStatus (Walk.status bytes) := by
  intro cursor within
  by_cases ends : bytes.length ≤ cursor
  · rw [List.drop_eq_nil_of_le ends, Walk.status, if_pos ends]
    rfl
  · have inside : cursor < bytes.length := by omega
    have there : Walk.byteAt bytes cursor = .ok bytes[cursor] := by
      rw [Walk.byteAt, List.getElem?_eq_getElem inside]
    rw [List.drop_eq_getElem_cons inside, readStatus, Walk.status, if_neg ends, there, bind_ok,
      sum_ok short within (by omega), bind_ok]
    cases Status.ofTag? bytes[cursor] with
    | none => rfl
    | some status => exact ⟨rfl, inside, rfl⟩

theorem tracks_capacity (short : bytes.length < 2 ^ 63) :
    Tracks bytes readCapacity (Walk.capacity bytes) := by
  intro cursor within
  refine (tracks_word short (by omega) cursor within).bind ?_
  rintro ⟨capacity, _⟩ ⟨_, cursor⟩ - ⟨rfl, within, rfl⟩
  exact Meets.guard Iff.rfl fun _ => Meets.pure ⟨rfl, within, rfl⟩

theorem tracks_many {reader : Reader α} {walk : Walk α} (tracks : Tracks bytes reader walk)
    (count : Nat) : Tracks bytes (readMany reader count) (Walk.many walk count) := by
  induction count with
  | zero => exact fun cursor within => ⟨rfl, within, rfl⟩
  | succ count ih =>
    intro cursor within
    refine (tracks cursor within).bind ?_
    rintro ⟨first, _⟩ ⟨_, cursor⟩ - ⟨rfl, within, rfl⟩
    refine (ih cursor within).bind ?_
    rintro ⟨rest, _⟩ ⟨_, cursor⟩ - ⟨rfl, within, rfl⟩
    exact Meets.pure ⟨rfl, within, rfl⟩

/-- Only so many bytes matter to a reader of so many statuses. -/
theorem readStatuses_take (count : Nat) (input : List UInt8) :
    (readMany readStatus count (input.take count)).map Prod.fst =
      (readMany readStatus count input).map Prod.fst := by
  induction count generalizing input with
  | zero => rfl
  | succ count ih =>
    cases input with
    | nil => rfl
    | cons tag input =>
      rw [List.take_succ_cons, readMany, readMany, readStatus, readStatus]
      cases Status.ofTag? tag with
      | none => rfl
      | some status =>
        have same := ih input
        simp only [bind_ok]
        cases part : readMany readStatus count (input.take count) <;>
          cases whole : readMany readStatus count input <;>
          simp_all [Except.map, bind, Except.bind, pure, Except.pure]

/-- Statuses are read from a part as they are read at its start. -/
theorem meets_statuses (short : bytes.length < 2 ^ 63) {start : Nat}
    (within : start ≤ bytes.length) (count : Nat) :
    Meets (fun read reached => reached.1 = read.1)
      (readMany readStatus count ((bytes.drop start).take count))
      (Walk.many (Walk.status bytes) count start) := by
  have meets := tracks_many (tracks_status short) count start within
  have same := readStatuses_take count (bytes.drop start)
  revert meets same
  generalize readMany readStatus count ((bytes.drop start).take count) = part
  generalize readMany readStatus count (bytes.drop start) = whole
  generalize Walk.many (Walk.status bytes) count start = walked
  intro meets same
  cases part with
  | error cause =>
    cases whole with
    | error other =>
      obtain rfl := Except.error.inj same
      cases walked with
      | error stop => exact meets
      | ok reached => exact meets.elim
    | ok read => cases same
  | ok read =>
    cases whole with
    | error other => cases same
    | ok other =>
      cases walked with
      | error stop => exact meets.elim
      | ok reached => exact meets.value.trans (Except.ok.inj same).symm

/-- As many values are read as were asked for. -/
theorem length_of_readMany {reader : Reader α} {count : Nat} {input rest : List UInt8}
    {items : List α} (read : readMany reader count input = .ok (items, rest)) :
    items.length = count := by
  induction count generalizing input items with
  | zero =>
    obtain ⟨rfl, -⟩ := Prod.mk.inj (Except.ok.inj read)
    rfl
  | succ count ih =>
    rw [readMany] at read
    rcases head : reader input with cause | ⟨first, behind⟩
    · rw [head] at read
      cases read
    rw [head, bind_ok] at read
    dsimp only at read
    rcases tail : readMany reader count behind with cause | ⟨others, last⟩
    · rw [tail] at read
      cases read
    rw [tail, bind_ok] at read
    obtain ⟨rfl, rfl⟩ := Prod.mk.inj (Except.ok.inj read)
    rw [List.length_cons, ih tail]

theorem gather_ok {ν : Type} {capacity : Nat} {fill : ν} {atoms : List Nat} {values : List ν}
    (room : atoms.length ≤ capacity) :
    Walk.gather capacity fill atoms values = .ok (gathered capacity fill atoms values) := by
  rw [Walk.gather, sparse_eq_some room]

theorem lend_ok {count size : Nat} (fits : count ≤ size) : Walk.lend count size = .ok () :=
  if_pos fits

theorem meets_body (short : bytes.length < 2 ^ 63) {cursor : Nat} (within : cursor ≤ bytes.length) :
    Meets (fun actor reached => reached = actor) (readBody (bytes.drop cursor))
      (Walk.body bytes cursor) := by
  have word := fun (width : Nat) (small : width ≤ 8) => tracks_word short small
  refine (word 8 (by omega) cursor within).bind ?_
  rintro ⟨_, _⟩ ⟨seed, cursor⟩ - ⟨rfl, within, rfl⟩
  refine (word 4 (by omega) cursor within).bind ?_
  rintro ⟨_, _⟩ ⟨continuationCount, cursor⟩ - ⟨rfl, within, rfl⟩
  refine (word 4 (by omega) cursor within).bind ?_
  rintro ⟨_, _⟩ ⟨outstandingCount, cursor⟩ - ⟨rfl, within, rfl⟩
  refine (word 4 (by omega) cursor within).bind ?_
  rintro ⟨_, _⟩ ⟨id, cursor⟩ - ⟨rfl, within, rfl⟩
  refine (word 8 (by omega) cursor within).bind ?_
  rintro ⟨_, _⟩ ⟨handle, cursor⟩ - ⟨rfl, within, rfl⟩
  refine (word 4 (by omega) cursor within).bind ?_
  rintro ⟨_, _⟩ ⟨slotCount, cursor⟩ counted ⟨rfl, within, rfl⟩
  have small : slotCount < 256 ^ 4 := readWord_lt counted
  have total : Walk.sum cursor slotCount = .ok (cursor + slotCount) :=
    sum_ok short within (by omega)
  dsimp only at within ⊢
  rw [total, bind_ok]
  refine Meets.guard (by rw [List.length_drop]; omega) fun fits => ?_
  rw [List.length_drop] at fits
  rw [List.drop_drop]
  refine (tracks_capacity short (cursor + slotCount) (by omega)).inPart.bind ?_
  rintro ⟨_, _⟩ ⟨continuationCapacity, behind⟩ - ⟨rfl, within', rfl⟩
  refine Meets.guard Iff.rfl fun counted => ?_
  refine (meets_statuses short within slotCount).inPart.bind ?_
  rintro ⟨_, _⟩ ⟨slots, _⟩ - rfl
  dsimp only at counted ⊢
  rw [lend_ok (Nat.not_lt.mp counted), bind_ok]
  refine (tracks_many (word 4 (by omega)) continuationCount behind within').bind ?_
  rintro ⟨_, _⟩ ⟨deciders, cursor⟩ read ⟨rfl, within, rfl⟩
  have room : deciders.length ≤ continuationCapacity :=
    le_of_eq_of_le (length_of_readMany read) (Nat.not_lt.mp counted)
  refine (tracks_many (word 4 (by omega)) continuationCount cursor within).bind ?_
  rintro ⟨_, _⟩ ⟨children, cursor⟩ - ⟨rfl, within, rfl⟩
  refine (tracks_capacity short cursor within).inPart.bind ?_
  rintro ⟨_, _⟩ ⟨outstandingCapacity, cursor⟩ - ⟨rfl, within, rfl⟩
  refine Meets.guard Iff.rfl fun counted' => ?_
  dsimp only at counted' within ⊢
  rw [lend_ok (Nat.not_lt.mp counted'), bind_ok]
  refine (tracks_many (word 4 (by omega)) outstandingCount cursor within).bind ?_
  rintro ⟨_, _⟩ ⟨actions, cursor⟩ read' ⟨rfl, within, rfl⟩
  have space : actions.length ≤ outstandingCapacity :=
    le_of_eq_of_le (length_of_readMany read') (Nat.not_lt.mp counted')
  refine (tracks_many (tracks_status short) outstandingCount cursor within).inPart.bind ?_
  rintro ⟨_, _⟩ ⟨statuses, cursor⟩ - ⟨rfl, within, rfl⟩
  refine Meets.allow ?_ ?_
  · dsimp only at within ⊢
    rw [List.isEmpty_iff, List.drop_eq_nil_iff]
    omega
  dsimp only
  rw [sparse_eq_some room, sparse_eq_some space, gather_ok room, gather_ok space]
  exact Meets.allow Iff.rfl rfl

theorem meets_decode (short : bytes.length < 2 ^ 63) :
    Meets (fun actor reached => reached = actor) (decode bytes) (Walk.decode bytes) := by
  refine Meets.guard Iff.rfl fun enough => ?_
  have within : 4 ≤ bytes.length := by omega
  have front : Walk.slice bytes 0 4 = .ok (bytes.take 4) := if_pos ⟨by omega, within⟩
  rw [front, bind_ok]
  refine Meets.guard Iff.rfl fun _ => ?_
  refine (tracks_word short (by omega) 4 within).bind ?_
  rintro ⟨_, _⟩ ⟨layoutVersion, cursor⟩ - ⟨rfl, within, rfl⟩
  refine (tracks_word short (by omega) cursor within).bind ?_
  rintro ⟨_, _⟩ ⟨_, cursor⟩ - ⟨-, within, rfl⟩
  exact Meets.guard Iff.rfl fun _ => meets_body short within

end Tracking

/-- Reading at positions refuses what the reader of the layout refuses, for the same causes, and
gives the same actors. -/
theorem walk_decode {bytes : List UInt8} (short : bytes.length < 2 ^ 63) :
    Walk.decode bytes = (decode bytes).mapError .refused :=
  (meets_decode short).eq_mapError

end Layout

end BehaviorTree
