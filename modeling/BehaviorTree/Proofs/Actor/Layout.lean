import BehaviorTree.Actor.Layout
import Mathlib.Algebra.Group.Nat.Defs
import Mathlib.Data.List.Basic

namespace BehaviorTree

namespace SparseStates
variable {ν : Type}

/-- The entries in new storage of the same size. -/
def restored (states : SparseStates ν) (fill : ν) : SparseStates ν :=
  (empty states.capacity fill).overwrite states.entries

variable (states : SparseStates ν) (fill : ν)

@[simp] theorem entries_restored : (states.restored fill).entries = states.entries := rfl

@[simp] theorem count_restored : (states.restored fill).count = states.count := rfl

@[simp] theorem isAscending_restored : (states.restored fill).isAscending = states.isAscending :=
  rfl

@[simp] theorem capacity_empty (capacity : Nat) : (empty capacity fill).capacity = capacity := by
  simp [empty, SparseStates.capacity]

@[simp] theorem capacity_restored : (states.restored fill).capacity = states.capacity := by
  have fits := states.fits
  simp only [restored, overwrite, SparseStates.capacity, empty, Array.drop_eq_extract,
    Array.size_extract, Array.size_append, Array.size_replicate, List.size_toArray,
    List.length_nil] at fits ⊢
  omega

end SparseStates

namespace Actor

/-- All numbers of an actor lie within the words in which they are kept. -/
structure Words (actor : Actor) : Prop where
  id : actor.id < Word.bound32
  slots : actor.slots.size < Word.bound32
  continuations : actor.continuations.capacity < Word.bound32
  outstanding : actor.outstanding.capacity < Word.bound32
  deciders : ∀ entry ∈ actor.continuations.entries.toList,
    entry.atom < Word.bound32 ∧ entry.value < Word.bound32
  actions : ∀ entry ∈ actor.outstanding.entries.toList, entry.atom < Word.bound32

/-- The actor with new storage for its sparse arrays. -/
def restored (actor : Actor) : Actor :=
  { actor with
    continuations := actor.continuations.restored 0
    outstanding := actor.outstanding.restored .fail }

end Actor

namespace Layout
variable {α : Type}

@[simp] theorem length_word (bytes number : Nat) : (word bytes number).length = bytes := by
  induction bytes generalizing number with
  | zero => rfl
  | succ bytes ih => rw [word, List.length_cons, ih]

theorem value_word {bytes number : Nat} (fits : number < 256 ^ bytes) :
    value (word bytes number) = number := by
  induction bytes generalizing number with
  | zero =>
    rw [Nat.pow_zero] at fits
    exact (Nat.lt_one_iff.mp fits).symm
  | succ bytes ih =>
    have rest : number / 256 < 256 ^ bytes := by
      rw [Nat.pow_succ] at fits
      exact Nat.div_lt_of_lt_mul (Nat.mul_comm _ _ ▸ fits)
    rw [word, value, ih rest, UInt8.toNat_ofNat']
    exact Nat.mod_add_div number 256

theorem value_lt (bytes : List UInt8) : value bytes < 256 ^ bytes.length := by
  induction bytes with
  | nil => exact Nat.one_pos
  | cons byte bytes ih =>
    have low : byte.toNat < 256 := byte.toNat_lt
    rw [value, List.length_cons, Nat.pow_succ]
    omega

/-- In front of all other bytes, some bytes are read as an item. -/
def Reads (reader : Reader α) (bytes : List UInt8) (item : α) : Prop :=
  ∀ rest, reader (bytes ++ rest) = .ok (item, rest)

/-- A computation that starts with such bytes goes on with the item. -/
theorem Reads.bind {γ : Type} {reader : Reader α} {bytes : List UInt8} {item : α}
    (reads : Reads reader bytes item) (rest : List UInt8)
    (next : α × List UInt8 → Except LayoutError γ) :
    (reader (bytes ++ rest) >>= next) = next (item, rest) := by
  rw [reads rest]
  rfl

@[simp] theorem bind_ok {ε γ : Type} (item : α) (next : α → Except ε γ) :
    (Except.ok item >>= next) = next item := rfl

@[simp] theorem inPart_ok (part : String) (item : α) : inPart part (.ok item) = .ok item := rfl

theorem reads_word {bytes number : Nat} (fits : number < 256 ^ bytes) :
    Reads (readWord bytes) (word bytes number) number := by
  intro rest
  have enough : ¬(word bytes number ++ rest).length < bytes := by
    rw [List.length_append, length_word]
    omega
  rw [readWord, if_neg enough, List.take_left' (length_word _ _), List.drop_left' (length_word _ _),
    value_word fits]

theorem reads_short {number : Nat} (fits : number < Word.bound32) :
    Reads (readWord 4) (word 4 number) number :=
  reads_word fits

theorem reads_long (number : UInt64) : Reads (readWord 8) (word 8 number.toNat) number.toNat :=
  reads_word number.toNat_lt

theorem reads_status (status : Status) : Reads readStatus [status.tag] status := by
  intro rest
  rw [List.singleton_append, readStatus, Status.ofTag?_tag]

/-- Items are read one after the other. -/
theorem reads_many {ι : Type} {reader : Reader α} {write : ι → List UInt8} {item : ι → α}
    {items : List ι} (each : ∀ one ∈ items, Reads reader (write one) (item one)) :
    Reads (readMany reader items.length) (items.flatMap write) (items.map item) := by
  intro rest
  induction items with
  | nil => rfl
  | cons first others ih =>
    have head := each first List.mem_cons_self (others.flatMap write ++ rest)
    have tail := ih fun one member => each one (List.mem_cons_of_mem _ member)
    rw [List.flatMap_cons, List.append_assoc, List.length_cons, readMany, head]
    simp only [bind, Except.bind, tail]
    rfl

theorem reads_statuses (statuses : List Status) :
    Reads (readMany readStatus statuses.length) (statuses.map Status.tag) statuses := by
  have reads : Reads (readMany readStatus statuses.length)
      (statuses.flatMap fun status => [status.tag]) (statuses.map fun status => status) :=
    reads_many fun status _ => reads_status status
  rwa [List.map_id', ← List.map_eq_flatMap] at reads

/-- A capacity is read back unless it is too large. -/
theorem readCapacity_word {capacity : Nat} (fits : capacity < Word.bound32) (rest : List UInt8) :
    readCapacity (word 4 capacity ++ rest) =
      if capacityLimit < capacity then .error (.capacityTooLarge capacity)
      else .ok (capacity, rest) := by
  rw [readCapacity, reads_short fits]
  simp only [bind, Except.bind]
  split <;> rfl

/-- The entries of a sparse array are put together again. -/
theorem sparse_entries {ν : Type} (states : SparseStates ν) (fill : ν) :
    sparse states.capacity fill (states.entries.toList.map Entry.atom)
        (states.entries.toList.map Entry.value) = some (states.restored fill) := by
  have entries : (List.zipWith Entry.mk (states.entries.toList.map Entry.atom)
      (states.entries.toList.map Entry.value)).toArray = states.entries := by
    rw [List.zipWith_map, List.zipWith_self]
    simp
  rw [sparse, entries, SparseStates.replace?, if_pos]
  · rfl
  · rw [SparseStates.capacity_empty]
    exact states.fits

section Gathering
variable {ν : Type} {capacity : Nat} {fill : ν} {atoms : List Nat} {values : List ν}

/-- The sparse array of given capacity whose entries are made up of atoms and values. -/
def gathered (capacity : Nat) (fill : ν) (atoms : List Nat) (values : List ν) : SparseStates ν :=
  (SparseStates.empty capacity fill).overwrite (List.zipWith Entry.mk atoms values).toArray

/-- Atoms and values make up a sparse array if there is room for the atoms. -/
theorem sparse_eq_some (room : atoms.length ≤ capacity) :
    sparse capacity fill atoms values = some (gathered capacity fill atoms values) := by
  rw [sparse, SparseStates.replace?, if_pos]
  · rfl
  · rw [SparseStates.capacity_empty, List.size_toArray, List.length_zipWith]
    exact Nat.le_trans (Nat.min_le_left _ _) room

theorem capacity_gathered (room : atoms.length ≤ capacity) :
    (gathered capacity fill atoms values).capacity = capacity := by
  simp only [gathered, SparseStates.overwrite, SparseStates.capacity, SparseStates.empty,
    Array.drop_eq_extract, Array.size_extract, Array.size_append, Array.size_replicate,
    List.size_toArray, List.length_zipWith, List.length_nil]
  omega

theorem map_atom_gathered (same : atoms.length ≤ values.length) :
    (gathered capacity fill atoms values).entries.toList.map Entry.atom = atoms := by
  simpa [gathered, SparseStates.overwrite, List.zip, List.map_zipWith] using List.map_fst_zip same

theorem map_value_gathered (same : values.length ≤ atoms.length) :
    (gathered capacity fill atoms values).entries.toList.map Entry.value = values := by
  simpa [gathered, SparseStates.overwrite, List.zip, List.map_zipWith] using List.map_snd_zip same

theorem count_gathered (same : atoms.length ≤ values.length) :
    (gathered capacity fill atoms values).count = atoms.length := by
  rw [SparseStates.count, ← Array.length_toList, ← List.length_map Entry.atom,
    map_atom_gathered same]

/-- The entries ascend as their atoms do. -/
theorem isAscending_gathered (same : atoms.length ≤ values.length) :
    (gathered capacity fill atoms values).isAscending ↔ atoms.Pairwise (· < ·) := by
  have keys : (gathered capacity fill atoms values).entries.toList.map Entry.atom = atoms :=
    map_atom_gathered same
  have ascends := congrArg (List.Pairwise (· < ·)) keys
  rw [List.pairwise_map] at ascends
  rw [SparseStates.isAscending, decide_eq_true_iff, ← ascends]
  rfl

end Gathering

/-- What is written behind the magic bytes and the version. -/
def body (actor : Actor) : List UInt8 :=
  word 8 actor.seed.toNat ++
    (word 4 actor.continuations.count ++ (word 4 actor.outstanding.count ++
    (word 4 actor.id ++ (word 8 actor.handle.toNat ++
    (word 4 actor.slots.size ++ (actor.slots.toList.map Status.tag ++
    (word 4 actor.continuations.capacity ++
    (actor.continuations.entries.toList.flatMap (fun entry => word 4 entry.atom) ++
    (actor.continuations.entries.toList.flatMap (fun entry => word 4 entry.value) ++
    (word 4 actor.outstanding.capacity ++
    (actor.outstanding.entries.toList.flatMap (fun entry => word 4 entry.atom) ++
    actor.outstanding.entries.toList.map (fun entry => entry.value.tag))))))))))))

theorem encode_eq (actor : Actor) :
    encode actor = magic ++ (word 2 version ++ (word 2 0 ++ body actor)) := by
  simp only [encode, body, List.append_assoc]

/-- Behind the magic bytes and the version, the body is read. -/
theorem decode_header (input : List UInt8) :
    decode (magic ++ (word 2 version ++ (word 2 0 ++ input))) = readBody input := by
  have enough : ¬(magic ++ (word 2 version ++ (word 2 0 ++ input))).length < 8 := by
    rw [List.length_append, List.length_append, List.length_append, length_word, length_word,
      show magic.length = 4 from rfl]
    omega
  have layoutVersion : Reads (readWord 2) (word 2 version) version := reads_word (by decide)
  have reserved : Reads (readWord 2) (word 2 0) 0 := reads_word (by decide)
  rw [decode]
  simp only [↓if_neg enough, ↓List.take_left' (show magic.length = 4 from rfl),
    ↓List.drop_left' (show magic.length = 4 from rfl), ne_eq, not_true_eq_false, ↓reduceIte,
    ↓layoutVersion.bind, ↓reserved.bind, Nat.lt_irrefl]

section
variable {actor : Actor} (words : actor.Words)
include words

theorem reads_continuationCount :
    Reads (readWord 4) (word 4 actor.continuations.count) actor.continuations.count :=
  reads_short (Nat.lt_of_le_of_lt actor.continuations.fits words.continuations)

theorem reads_outstandingCount :
    Reads (readWord 4) (word 4 actor.outstanding.count) actor.outstanding.count :=
  reads_short (Nat.lt_of_le_of_lt actor.outstanding.fits words.outstanding)

theorem reads_deciders : Reads (readMany (readWord 4) actor.continuations.count)
    (actor.continuations.entries.toList.flatMap fun entry => word 4 entry.atom)
    (actor.continuations.entries.toList.map Entry.atom) :=
  reads_many fun entry member => reads_short (words.deciders entry member).1

theorem reads_children : Reads (readMany (readWord 4) actor.continuations.count)
    (actor.continuations.entries.toList.flatMap fun entry => word 4 entry.value)
    (actor.continuations.entries.toList.map Entry.value) :=
  reads_many fun entry member => reads_short (words.deciders entry member).2

theorem reads_actions : Reads (readMany (readWord 4) actor.outstanding.count)
    (actor.outstanding.entries.toList.flatMap fun entry => word 4 entry.atom)
    (actor.outstanding.entries.toList.map Entry.atom) :=
  reads_many fun entry member => reads_short (words.actions entry member)

/-- The body is read back, unless a capacity is too large. -/
theorem readBody_body (ascending : actor.isAscending) :
    readBody (body actor) =
      if capacityLimit < actor.continuations.capacity then
        .error (.within "decider states" (.capacityTooLarge actor.continuations.capacity))
      else if capacityLimit < actor.outstanding.capacity then
        .error (.within "action states" (.capacityTooLarge actor.outstanding.capacity))
      else .ok actor.restored := by
  have counted : ¬actor.continuations.capacity < actor.continuations.count :=
    Nat.not_lt.mpr actor.continuations.fits
  have outstandingCounted : ¬actor.outstanding.capacity < actor.outstanding.count :=
    Nat.not_lt.mpr actor.outstanding.fits
  have slotBytes : (actor.slots.toList.map Status.tag).length = actor.slots.size := by
    rw [List.length_map, Array.length_toList]
  have enough : ∀ rest : List UInt8,
      ¬(actor.slots.toList.map Status.tag ++ rest).length < actor.slots.size := by
    intro rest
    rw [List.length_append, slotBytes]
    omega
  have slots : readMany readStatus actor.slots.size (actor.slots.toList.map Status.tag) =
      .ok (actor.slots.toList, []) := by
    have reads := reads_statuses actor.slots.toList []
    rwa [List.append_nil, Array.length_toList] at reads
  have statuses : readMany readStatus actor.outstanding.count
      (actor.outstanding.entries.toList.map fun entry => entry.value.tag) =
      .ok (actor.outstanding.entries.toList.map Entry.value, []) := by
    have reads := reads_statuses (actor.outstanding.entries.toList.map Entry.value) []
    rwa [List.append_nil, List.length_map, Array.length_toList, List.map_map] at reads
  -- Each part is read where the parts before it end.
  rw [readBody, body]
  simp only [↓(reads_long _).bind, ↓(reads_continuationCount words).bind,
    ↓(reads_outstandingCount words).bind, ↓(reads_short words.id).bind,
    ↓(reads_short words.slots).bind, ↓if_neg (enough _), ↓List.drop_left' slotBytes,
    ↓List.take_left' slotBytes, ↓readCapacity_word words.continuations]
  by_cases large : capacityLimit < actor.continuations.capacity
  · rw [if_pos large, if_pos large]
    rfl
  rw [if_neg large, if_neg large]
  simp only [↓inPart_ok, ↓bind_ok, ↓if_neg counted, ↓slots, ↓(reads_deciders words).bind,
    ↓(reads_children words).bind, ↓readCapacity_word words.outstanding]
  by_cases larger : capacityLimit < actor.outstanding.capacity
  · rw [if_pos larger, if_pos larger]
    rfl
  rw [if_neg larger, if_neg larger]
  simp only [↓inPart_ok, ↓bind_ok, ↓if_neg outstandingCounted, ↓(reads_actions words).bind,
    ↓statuses, List.isEmpty_nil, ↓reduceIte, ↓sparse_entries, UInt64.ofNat_toNat,
    Array.toArray_toList]
  exact if_pos ascending

end

/-- A persisted actor is read back exactly if its capacities are not too large, and then everything
but what is stale in its sparse arrays is as it was. -/
theorem decode_encode (actor : Actor) (words : actor.Words) (ascending : actor.isAscending) :
    ((∃ decoded, decode (encode actor) = .ok decoded) ↔
      actor.continuations.capacity ≤ 0x100000 ∧ actor.outstanding.capacity ≤ 0x100000) ∧
    ∀ decoded, decode (encode actor) = .ok decoded →
      decoded.id = actor.id ∧ decoded.handle = actor.handle ∧ decoded.seed = actor.seed ∧
      decoded.slots = actor.slots ∧
      decoded.continuations.count = actor.continuations.count ∧
      decoded.outstanding.count = actor.outstanding.count ∧
      decoded.continuations.capacity = actor.continuations.capacity ∧
      decoded.outstanding.capacity = actor.outstanding.capacity ∧
      decoded.continuations.entries = actor.continuations.entries ∧
      decoded.outstanding.entries = actor.outstanding.entries := by
  rw [encode_eq, decode_header, readBody_body words ascending]
  by_cases large : capacityLimit < actor.continuations.capacity
  · rw [if_pos large]
    refine ⟨⟨nofun, fun small => ?_⟩, nofun⟩
    exact absurd small.1 (Nat.not_le.mpr large)
  by_cases larger : capacityLimit < actor.outstanding.capacity
  · rw [if_neg large, if_pos larger]
    refine ⟨⟨nofun, fun small => ?_⟩, nofun⟩
    exact absurd small.2 (Nat.not_le.mpr larger)
  rw [if_neg large, if_neg larger]
  refine ⟨⟨fun _ => ⟨Nat.not_lt.mp large, Nat.not_lt.mp larger⟩, fun _ => ⟨_, rfl⟩⟩, ?_⟩
  rintro _ ⟨⟩
  exact ⟨rfl, rfl, rfl, rfl, rfl, rfl, SparseStates.capacity_restored _ _,
    SparseStates.capacity_restored _ _, rfl, rfl⟩

/-- A sequence remembers a child, and two actions are outstanding. -/
def sample : Actor where
  id := 42
  handle := 99
  seed := 0xdeadbeef
  slots := #[.fail, .fail, .running]
  continuations := ⟨#[⟨1, 3⟩], #[⟨0, 0⟩]⟩
  outstanding := ⟨#[⟨3, .running⟩, ⟨8, .launch⟩], #[⟨5, .success⟩, ⟨0, .fail⟩]⟩

theorem words_sample : sample.Words where
  id := by decide
  slots := by decide
  continuations := by decide
  outstanding := by decide
  deciders := by decide
  actions := by decide

theorem decode_encode_sample :
    ∃ decoded, decode (encode sample) = .ok decoded ∧ decoded.slots = #[.fail, .fail, .running] ∧
      decoded.continuations.entries = #[⟨1, 3⟩] ∧ decoded.outstanding.capacity = 4 := by
  obtain ⟨readable, same⟩ := decode_encode sample words_sample (by decide)
  obtain ⟨decoded, read⟩ := readable.mpr (by decide)
  obtain ⟨-, -, -, slots, -, -, -, capacity, entries, -⟩ := same decoded read
  exact ⟨decoded, read, slots, entries, capacity⟩

end Layout

end BehaviorTree
