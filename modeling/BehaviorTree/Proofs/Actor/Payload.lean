import BehaviorTree.Proofs.Actor.Positions

namespace BehaviorTree

namespace Layout

/-- The bytes from a position on, as many as are asked for. -/
def part (bytes : List UInt8) (start count : Nat) : List UInt8 := (bytes.drop start).take count

/-- The number that stands at a position. -/
def number (bytes : List UInt8) (start width : Nat) : Nat := value (part bytes start width)

/-- The numbers of four bytes that stand in a row from a position on. -/
def numbers (bytes : List UInt8) : Nat → Nat → List Nat
  | _, 0 => []
  | start, count + 1 => number bytes start 4 :: numbers bytes (start + 4) count

/-- The statuses that stand in a row from a position on. -/
def statuses (bytes : List UInt8) (start count : Nat) : List Status :=
  (part bytes start count).filterMap Status.ofTag?

section Positions
variable (bytes : List UInt8)

def continuationCount : Nat := number bytes 16 4

def outstandingCount : Nat := number bytes 20 4

def slotCount : Nat := number bytes 36 4

/-- Where the capacity for continuations stands, behind the slots. -/
def continuationStart : Nat := 40 + slotCount bytes

/-- Where the capacity for outstanding actions stands, behind the continuations. -/
def outstandingStart : Nat :=
  continuationStart bytes + 4 + 4 * continuationCount bytes + 4 * continuationCount bytes

def continuationCapacity : Nat := number bytes (continuationStart bytes) 4

def outstandingCapacity : Nat := number bytes (outstandingStart bytes) 4

/-- The atoms of the continuations. -/
def deciders : List Nat := numbers bytes (continuationStart bytes + 4) (continuationCount bytes)

/-- The children of the continuations. -/
def children : List Nat :=
  numbers bytes (continuationStart bytes + 4 + 4 * continuationCount bytes)
    (continuationCount bytes)

/-- The atoms of the outstanding actions. -/
def actions : List Nat := numbers bytes (outstandingStart bytes + 4) (outstandingCount bytes)

/-- Where the statuses of the outstanding actions stand, behind their atoms. -/
def statusStart : Nat := outstandingStart bytes + 4 + 4 * outstandingCount bytes

end Positions

/-- What stands behind the magic bytes and the version is laid out as documented. -/
structure DocumentedBody (bytes : List UInt8) : Prop where
  length : bytes.length = 48 + slotCount bytes + 8 * continuationCount bytes +
    5 * outstandingCount bytes
  slots : ∀ tag ∈ part bytes 40 (slotCount bytes), tag.toNat ≤ 4
  statuses : ∀ tag ∈ part bytes (statusStart bytes) (outstandingCount bytes), tag.toNat ≤ 4
  continuations : continuationCount bytes ≤ continuationCapacity bytes
  outstanding : outstandingCount bytes ≤ outstandingCapacity bytes
  continuationLimit : continuationCapacity bytes ≤ capacityLimit
  outstandingLimit : outstandingCapacity bytes ≤ capacityLimit
  deciders : (deciders bytes).Pairwise (· < ·)
  actions : (actions bytes).Pairwise (· < ·)

/-- Bytes that are laid out as documented. -/
structure Documented (bytes : List UInt8) : Prop extends DocumentedBody bytes where
  magic : magic <+: bytes
  version : number bytes 4 2 ≤ version

section Reading
variable {α γ : Type} {bytes : List UInt8} {result : γ}

theorem error_bind {next : α → Except LayoutError γ} {cause : LayoutError} :
    (Except.error cause >>= next) = .error cause := rfl

/-- A check that does not refuse goes on. -/
theorem guard_ok {condition : Prop} [Decidable condition] {cause : LayoutError}
    {other : α → Except LayoutError γ} {rest : Except LayoutError γ} :
    (if condition then throw cause >>= other else rest) = .ok result ↔
      ¬condition ∧ rest = .ok result := by
  split
  case isTrue held => simp [held, throw, throwThe, MonadExceptOf.throw, error_bind]
  case isFalse held => simp [held]

theorem unless_ok {condition : Prop} [Decidable condition] {cause : LayoutError}
    {other : α → Except LayoutError γ} {rest : Except LayoutError γ} :
    (if condition then rest else throw cause >>= other) = .ok result ↔
      condition ∧ rest = .ok result := by
  split
  case isTrue held => simp [held]
  case isFalse held => simp [held, throw, throwThe, MonadExceptOf.throw, error_bind]

/-- Reading a number succeeds where enough bytes are left, and goes on behind it. -/
theorem readWord_ok {width start : Nat} (some : 0 < width)
    {next : Nat × List UInt8 → Except LayoutError γ} :
    (readWord width (bytes.drop start) >>= next) = .ok result ↔
      start + width ≤ bytes.length ∧
        next (number bytes start width, bytes.drop (start + width)) = .ok result := by
  rw [readWord, List.length_drop]
  by_cases short : bytes.length - start < width
  · have beyond : ¬start + width ≤ bytes.length := by omega
    simp [if_pos short, error_bind, beyond]
  · have enough : start + width ≤ bytes.length := by omega
    rw [if_neg short, bind_ok, List.drop_drop]
    simp [enough, number, part]

/-- Reading numbers in a row succeeds where enough bytes are left. -/
theorem readNumbers_ok {start count : Nat}
    {next : List Nat × List UInt8 → Except LayoutError γ} :
    (readMany (readWord 4) count (bytes.drop start) >>= next) = .ok result ↔
      4 * count ≤ bytes.length - start ∧
        next (numbers bytes start count, bytes.drop (start + 4 * count)) = .ok result := by
  induction count generalizing start next with
  | zero => simp [readMany, numbers]
  | succ count ih =>
    have total : start + 4 + 4 * count = start + 4 * (count + 1) := by omega
    have enough : 4 * (count + 1) ≤ bytes.length - start ↔
        start + 4 ≤ bytes.length ∧ 4 * count ≤ bytes.length - (start + 4) := by omega
    rw [readMany, bind_assoc, readWord_ok (by decide), bind_assoc, ih, total, enough, and_assoc]
    rfl

theorem ofTag?_eq_none {tag : UInt8} (large : 4 < tag.toNat) : Status.ofTag? tag = none := by
  unfold Status.ofTag?
  split
  case h_6 => rfl
  all_goals exact absurd large (by decide)

/-- A byte that is no more than four is the tag of a status. -/
theorem exists_tag {tag : UInt8} (small : tag.toNat ≤ 4) : ∃ status : Status, status.tag = tag := by
  have cases : tag.toNat = 0 ∨ tag.toNat = 1 ∨ tag.toNat = 2 ∨ tag.toNat = 3 ∨ tag.toNat = 4 := by
    omega
  rcases cases with same | same | same | same | same
  · exact ⟨.launch, UInt8.toNat_inj.mp same.symm⟩
  · exact ⟨.running, UInt8.toNat_inj.mp same.symm⟩
  · exact ⟨.success, UInt8.toNat_inj.mp same.symm⟩
  · exact ⟨.fail, UInt8.toNat_inj.mp same.symm⟩
  · exact ⟨.cancel, UInt8.toNat_inj.mp same.symm⟩

/-- Reading statuses in a row succeeds where enough bytes are left and all of them are tags. -/
theorem readStatuses_ok {count : Nat} {input : List UInt8}
    {next : List Status × List UInt8 → Except LayoutError γ} :
    (readMany readStatus count input >>= next) = .ok result ↔
      count ≤ input.length ∧ (∀ tag ∈ input.take count, tag.toNat ≤ 4) ∧
        next ((input.take count).filterMap Status.ofTag?, input.drop count) = .ok result := by
  induction count generalizing input next with
  | zero => simp [readMany]
  | succ count ih =>
    cases input with
    | nil => simp [readMany, readStatus, error_bind]
    | cons tag input =>
      by_cases small : tag.toNat ≤ 4
      · obtain ⟨status, rfl⟩ := exists_tag small
        rw [readMany, readStatus, Status.ofTag?_tag]
        have head := Status.ofTag?_tag status
        simp only [bind_ok, bind_assoc, ih, pure_bind, List.length_cons, List.take_succ_cons,
          List.drop_succ_cons, List.forall_mem_cons, List.filterMap_cons_some head,
          Nat.add_le_add_iff_right, small, true_and]
      · rw [readMany, readStatus, ofTag?_eq_none (Nat.not_le.mp small)]
        simp [error_bind, small]

/-- What is read in a named part goes on where it would have gone on by itself. -/
theorem inPart_ok_iff {name : String} {outcome : Except LayoutError α}
    {next : α → Except LayoutError γ} :
    (inPart name outcome >>= next) = .ok result ↔ (outcome >>= next) = .ok result := by
  cases outcome with
  | error cause => simp [inPart, Except.mapError, error_bind]
  | ok item => rfl

/-- A capacity is read where enough bytes are left and it is no larger than the limit. -/
theorem readCapacity_ok {start : Nat} {next : Nat × List UInt8 → Except LayoutError γ} :
    (readCapacity (bytes.drop start) >>= next) = .ok result ↔
      start + 4 ≤ bytes.length ∧ number bytes start 4 ≤ capacityLimit ∧
        next (number bytes start 4, bytes.drop (start + 4)) = .ok result := by
  rw [readCapacity, bind_assoc, readWord_ok (by decide)]
  refine and_congr_right fun _ => ?_
  by_cases large : capacityLimit < number bytes start 4
  · simp [large, Nat.not_le.mpr large, throw, throwThe, MonadExceptOf.throw, error_bind]
  · simp [large, Nat.not_lt.mp large]

end Reading

@[simp] theorem length_numbers (bytes : List UInt8) (start count : Nat) :
    (numbers bytes start count).length = count := by
  induction count generalizing start with
  | zero => rfl
  | succ count ih => rw [numbers, List.length_cons, ih]

/-- The actor that bytes describe. -/
def described (bytes : List UInt8) : Actor where
  id := number bytes 24 4
  handle := UInt64.ofNat (number bytes 28 8)
  seed := UInt64.ofNat (number bytes 8 8)
  slots := (statuses bytes 40 (slotCount bytes)).toArray
  continuations := gathered (continuationCapacity bytes) 0 (deciders bytes) (children bytes)
  outstanding := gathered (outstandingCapacity bytes) .fail (actions bytes)
    (statuses bytes (statusStart bytes) (outstandingCount bytes))

/-- The magic bytes and the version are checked before the body is read. -/
theorem decode_ok {bytes : List UInt8} {actor : Actor} :
    decode bytes = .ok actor ↔
      8 ≤ bytes.length ∧ magic <+: bytes ∧ number bytes 4 2 ≤ version ∧
        readBody (bytes.drop 8) = .ok actor := by
  rw [decode]
  simp only [↓guard_ok, ↓readWord_ok (show 0 < 2 by decide)]
  rw [List.prefix_iff_eq_take, Nat.not_lt, Nat.not_lt]
  constructor
  · rintro ⟨enough, magical, -, -, known, body⟩
    exact ⟨enough, (not_not.mp magical).symm, known, body⟩
  · rintro ⟨enough, magical, known, body⟩
    exact ⟨enough, not_not.mpr magical.symm, by omega, by omega, known, body⟩

theorem length_part {bytes : List UInt8} {start count : Nat}
    (enough : start + count ≤ bytes.length) : (part bytes start count).length = count := by
  rw [part, List.length_take, List.length_drop]
  omega

/-- Where all bytes are tags, they are the tags of the statuses. -/
theorem map_tag_statuses {bytes : List UInt8} {start count : Nat}
    (tags : ∀ tag ∈ part bytes start count, tag.toNat ≤ 4) :
    (statuses bytes start count).map Status.tag = part bytes start count := by
  rw [statuses]
  generalize part bytes start count = part at tags ⊢
  induction part with
  | nil => rfl
  | cons tag rest ih =>
    obtain ⟨small, others⟩ := List.forall_mem_cons.mp tags
    obtain ⟨status, rfl⟩ := exists_tag small
    rw [List.filterMap_cons_some (Status.ofTag?_tag status), List.map_cons, ih others]

theorem length_statuses {bytes : List UInt8} {start count : Nat}
    (enough : start + count ≤ bytes.length)
    (tags : ∀ tag ∈ part bytes start count, tag.toNat ≤ 4) :
    (statuses bytes start count).length = count := by
  rw [← List.length_map Status.tag, map_tag_statuses tags, length_part enough]

/-- The actor that is described is in order exactly if both rows of atoms ascend. -/
theorem isAscending_described {bytes : List UInt8}
    (enough : statusStart bytes + outstandingCount bytes ≤ bytes.length)
    (tags : ∀ tag ∈ part bytes (statusStart bytes) (outstandingCount bytes), tag.toNat ≤ 4) :
    (described bytes).isAscending ↔
      (deciders bytes).Pairwise (· < ·) ∧ (actions bytes).Pairwise (· < ·) := by
  have counted : (actions bytes).length ≤
      (statuses bytes (statusStart bytes) (outstandingCount bytes)).length := by
    simp [actions, length_statuses enough tags]
  have paired : (deciders bytes).length ≤ (children bytes).length := by
    simp [deciders, children]
  rw [Actor.isAscending, Bool.and_eq_true, described, isAscending_gathered paired,
    isAscending_gathered counted]

theorem readBody_ok {bytes : List UInt8} {actor : Actor} :
    readBody (bytes.drop 8) = .ok actor ↔ DocumentedBody bytes ∧ described bytes = actor := by
  rw [readBody]
  simp only [↓guard_ok, ↓readWord_ok (show 0 < 8 by decide), ↓readWord_ok (show 0 < 4 by decide)]
  simp only [List.drop_drop, List.length_drop, Nat.reduceAdd]
  simp only [↓guard_ok, ↓unless_ok, ↓readCapacity_ok, ↓inPart_ok_iff, ↓readStatuses_ok,
    ↓readNumbers_ok, ↓List.drop_drop]
  rw [List.take_take, Nat.min_self]
  constructor
  · rintro ⟨-, -, -, -, -, header, slotsFit, capacityFits, continuationLimit, continuations, -,
      slots, -, -, outstandingFits, outstandingLimit, outstanding, -, enough, statuses, empty, rest⟩
    rw [sparse_eq_some (by rw [length_numbers]; exact Nat.not_lt.mp continuations)] at rest
    dsimp only at rest
    rw [sparse_eq_some (by rw [length_numbers]; exact Nat.not_lt.mp outstanding)] at rest
    dsimp only at rest
    rw [unless_ok] at rest
    obtain ⟨ascending, same⟩ := rest
    rw [List.isEmpty_iff, List.drop_eq_nil_iff] at empty
    rw [List.length_drop] at enough
    obtain ⟨deciders, actions⟩ := (isAscending_described (by
      simp only [statusStart, outstandingStart, continuationStart, slotCount, continuationCount,
        outstandingCount]
      omega) statuses).mp ascending
    refine ⟨⟨?_, slots, statuses, Nat.not_lt.mp continuations, Nat.not_lt.mp outstanding,
      continuationLimit, outstandingLimit, deciders, actions⟩, Except.ok.inj same⟩
    simp only [slotCount, continuationCount, outstandingCount]
    omega
  · rintro ⟨⟨length, slots, statuses, continuations, outstanding, continuationLimit,
      outstandingLimit, deciders, actions⟩, same⟩
    have ascending : (described bytes).isAscending := (isAscending_described (by
      simp only [statusStart, outstandingStart, continuationStart]
      omega) statuses).mpr ⟨deciders, actions⟩
    simp only [slotCount, continuationCount, outstandingCount] at length
    refine ⟨by omega, by omega, by omega, by omega, by omega, by omega, by omega, by omega,
      continuationLimit, Nat.not_lt.mpr continuations, ?_, slots, by omega, by omega, by omega,
      outstandingLimit, Nat.not_lt.mpr outstanding, by omega, ?_, statuses, ?_, ?_⟩
    · rw [List.length_take, List.length_drop]
      omega
    · rw [List.length_drop]
      omega
    · rw [List.isEmpty_iff, List.drop_eq_nil_iff]
      omega
    · rw [sparse_eq_some (by rw [length_numbers]; exact continuations)]
      dsimp only
      rw [sparse_eq_some (by rw [length_numbers]; exact outstanding)]
      dsimp only
      rw [unless_ok]
      exact ⟨ascending, congrArg Except.ok same⟩

/-- A reader accepts exactly the bytes that are laid out as documented, and gives the actor that
they describe. -/
theorem decode_eq_ok_iff {bytes : List UInt8} {actor : Actor} :
    decode bytes = .ok actor ↔ Documented bytes ∧ described bytes = actor := by
  rw [decode_ok, readBody_ok]
  constructor
  · rintro ⟨-, magical, known, body, same⟩
    exact ⟨⟨body, magical, known⟩, same⟩
  · rintro ⟨⟨body, magical, known⟩, same⟩
    have length := body.length
    exact ⟨by omega, magical, known, body, same⟩

section Writing

/-- What was read as a number is written in the same bytes. -/
theorem word_value (bytes : List UInt8) : word bytes.length (value bytes) = bytes := by
  induction bytes with
  | nil => rfl
  | cons byte bytes ih =>
    have low : byte.toNat < 256 := byte.toNat_lt
    have digit : (byte.toNat + 256 * value bytes) % 256 = byte.toNat := by omega
    have rest : (byte.toNat + 256 * value bytes) / 256 = value bytes := by omega
    rw [List.length_cons, value, word, rest, ih]
    congr 1
    apply UInt8.toNat_inj.mp
    rw [UInt8.toNat_ofNat', digit]

variable {bytes : List UInt8} {start count : Nat}

theorem word_number (enough : start + count ≤ bytes.length) :
    word count (number bytes start count) = part bytes start count := by
  have same := word_value (part bytes start count)
  rwa [length_part enough] at same

theorem word_number_long (enough : start + 8 ≤ bytes.length) :
    word 8 (UInt64.ofNat (number bytes start 8)).toNat = part bytes start 8 := by
  have fits : number bytes start 8 < UInt64.size := by
    have below := value_lt (part bytes start 8)
    rwa [length_part enough] at below
  rw [UInt64.toNat_ofNat_of_lt' fits, word_number enough]

/-- A part, and what stands behind it, are all that stands from its start on. -/
theorem part_append {first rest : List UInt8} (here : first = part bytes start count)
    (behind : rest = bytes.drop (start + count)) : first ++ rest = bytes.drop start := by
  rw [here, behind, part, ← List.drop_drop, List.take_append_drop]

theorem flatMap_word_numbers (enough : start + 4 * count ≤ bytes.length) :
    (numbers bytes start count).flatMap (word 4) = part bytes start (4 * count) := by
  induction count generalizing start with
  | zero => simp [numbers, part]
  | succ count ih =>
    have total : 4 * (count + 1) = 4 + 4 * count := by omega
    rw [numbers, List.flatMap_cons, word_number (by omega), ih (by omega), total, part, part, part,
      List.take_add, List.drop_drop]

variable {ν : Type} {capacity : Nat} {fill : ν} {atoms : List Nat} {values : List ν}

/-- The atoms of a sparse array are written in the bytes of the numbers that were read. -/
theorem flatMap_atom (same : (numbers bytes start count).length ≤ values.length)
    (enough : start + 4 * count ≤ bytes.length) :
    (gathered capacity fill (numbers bytes start count) values).entries.toList.flatMap
      (fun entry => word 4 entry.atom) = part bytes start (4 * count) := by
  rw [← List.flatMap_map, map_atom_gathered same, flatMap_word_numbers enough]

/-- Values that are numbers are written in the bytes of the numbers that were read. -/
theorem flatMap_value {fill : Nat} (same : (numbers bytes start count).length ≤ atoms.length)
    (enough : start + 4 * count ≤ bytes.length) :
    (gathered capacity fill atoms (numbers bytes start count)).entries.toList.flatMap
      (fun entry => word 4 entry.value) = part bytes start (4 * count) := by
  rw [← List.flatMap_map, map_value_gathered same, flatMap_word_numbers enough]

/-- Values that are statuses are written in the bytes that were read. -/
theorem map_value_tag {fill : Status} (same : (statuses bytes start count).length ≤ atoms.length)
    (tags : ∀ tag ∈ part bytes start count, tag.toNat ≤ 4) :
    (gathered capacity fill atoms (statuses bytes start count)).entries.toList.map
      (fun entry => entry.value.tag) = part bytes start count := by
  have mapped : (gathered capacity fill atoms (statuses bytes start count)).entries.toList.map
      Entry.value = statuses bytes start count := map_value_gathered same
  have tagged := congrArg (List.map Status.tag) mapped
  rw [List.map_map, map_tag_statuses tags] at tagged
  exact tagged

/-- The body of what is described is written as it was read. -/
theorem body_described (documented : DocumentedBody bytes) :
    body (described bytes) = bytes.drop 8 := by
  have length := documented.length
  have continuationAt : continuationStart bytes = 40 + slotCount bytes := rfl
  have outstandingAt : outstandingStart bytes =
    continuationStart bytes + 4 + 4 * continuationCount bytes + 4 * continuationCount bytes := rfl
  have statusAt : statusStart bytes = outstandingStart bytes + 4 + 4 * outstandingCount bytes := rfl
  have paired : (deciders bytes).length = (children bytes).length := by simp [deciders, children]
  have counted : (actions bytes).length =
      (statuses bytes (statusStart bytes) (outstandingCount bytes)).length := by
    rw [length_statuses (by omega) documented.statuses]
    simp [actions]
  have slots : (described bytes).slots.size = slotCount bytes :=
    length_statuses (by omega) documented.slots
  have continuations : (described bytes).continuations.count = continuationCount bytes :=
    (count_gathered (Nat.le_of_eq paired)).trans (length_numbers _ _ _)
  have outstanding : (described bytes).outstanding.count = outstandingCount bytes :=
    (count_gathered (Nat.le_of_eq counted)).trans (length_numbers _ _ _)
  have continuationRoom : (described bytes).continuations.capacity = continuationCapacity bytes :=
    capacity_gathered (by simpa [deciders] using documented.continuations)
  have outstandingRoom : (described bytes).outstanding.capacity = outstandingCapacity bytes :=
    capacity_gathered (by simpa [actions] using documented.outstanding)
  rw [body, slots, continuations, outstanding, continuationRoom, outstandingRoom]
  -- Each part is written where the parts before it end.
  refine part_append (word_number_long (by omega)) (part_append (word_number (by omega))
    (part_append (word_number (by omega)) (part_append (word_number (by omega))
    (part_append (word_number_long (by omega)) (part_append (word_number (by omega)) ?_)))))
  refine part_append (map_tag_statuses documented.slots) (part_append (word_number (by omega))
    (part_append (flatMap_atom (Nat.le_of_eq paired) (by omega))
    (part_append (flatMap_value (Nat.le_of_eq paired.symm) (by omega))
    (part_append (word_number (by omega))
    (part_append (flatMap_atom (Nat.le_of_eq counted) (by omega)) ?_)))))
  have behind : statusStart bytes + outstandingCount bytes = bytes.length := by omega
  refine (map_value_tag (Nat.le_of_eq counted.symm) documented.statuses).trans ?_
  exact List.take_of_length_le (by rw [List.length_drop]; omega)

/-- What is described is written as it was read, but for the version and the reserved bytes. -/
theorem encode_described (documented : Documented bytes) :
    encode (described bytes) = bytes.take 4 ++ [1, 0, 0, 0] ++ bytes.drop 8 := by
  have magical : bytes.take 4 = magic := (List.prefix_iff_eq_take.mp documented.magic).symm
  have fixed : word 2 version ++ word 2 0 = [1, 0, 0, 0] := by decide
  rw [encode_eq, body_described documented.toDocumentedBody, magical, ← fixed]
  simp only [List.append_assoc]

end Writing

section Prefixes
variable {bytes longer : List UInt8} {start width : Nat}

theorem number_of_shorter (shorter : bytes <+: longer) (within : start + width ≤ bytes.length) :
    number longer start width = number bytes start width := by
  obtain ⟨rest, rfl⟩ := shorter
  have ends : width ≤ (bytes.drop start).length := by rw [List.length_drop]; omega
  rw [number, number, part, part, List.drop_append_of_le_length (by omega),
    List.take_append_of_le_length ends]

/-- The counts near the front tell how many bytes there are. -/
theorem eq_of_nested (documented : Documented bytes) (other : Documented longer)
    (shorter : bytes <+: longer) : bytes = longer := by
  have length := documented.length
  have same : longer.length = bytes.length := by
    rw [other.length, length, slotCount, slotCount, continuationCount, continuationCount,
      outstandingCount, outstandingCount, number_of_shorter shorter (by omega),
      number_of_shorter shorter (by omega), number_of_shorter shorter (by omega)]
  exact shorter.eq_of_length same.symm

end Prefixes

/-- Bytes are accepted exactly if they are laid out as documented, and an accepted actor is written
in the same bytes, but for the version and the reserved bytes. Of bytes that are accepted, no fewer
and no more are. A reader at positions comes to the same end, and never leaves the bytes. -/
theorem decode_documented (bytes : List UInt8) :
    ((∃ actor, decode bytes = .ok actor) ↔ Documented bytes) ∧
    (∀ actor, decode bytes = .ok actor →
      encode actor = bytes.take 4 ++ [1, 0, 0, 0] ++ bytes.drop 8) ∧
    (∀ actor other, decode bytes = .ok actor → other <+: bytes ∨ bytes <+: other →
      other ≠ bytes → ∃ cause, decode other = .error cause) ∧
    (bytes.length < 2 ^ 63 → Walk.decode bytes = (decode bytes).mapError .refused) := by
  refine ⟨?_, ?_, ?_, walk_decode⟩
  · simp only [decode_eq_ok_iff, exists_and_left, exists_eq', and_true]
  · intro actor accepted
    obtain ⟨documented, rfl⟩ := decode_eq_ok_iff.mp accepted
    exact encode_described documented
  · intro actor other accepted nested different
    have documented := (decode_eq_ok_iff.mp accepted).1
    cases outcome : decode other with
    | error cause => exact ⟨cause, rfl⟩
    | ok second =>
      have also := (decode_eq_ok_iff.mp outcome).1
      rcases nested with shorter | longer
      · exact absurd (eq_of_nested also documented shorter) different
      · exact absurd (eq_of_nested documented also longer).symm different

/-- A payload of version 0 with a continuation, an outstanding action, and reserved bytes in use. -/
def payload : List UInt8 :=
  [0x4c, 0x49, 0x5a, 0x41, 0, 0, 7, 9, 1, 0, 0, 0, 0, 0, 0, 0, 1, 0, 0, 0, 1, 0, 0, 0, 42, 0, 0, 0,
    99, 0, 0, 0, 0, 0, 0, 0, 2, 0, 0, 0, 3, 1, 2, 0, 0, 0, 1, 0, 0, 0, 3, 0, 0, 0, 4, 0, 0, 0,
    5, 0, 0, 0, 1]

theorem documented_payload : Documented payload where
  magic := by decide
  version := by decide
  length := by decide
  slots := by
    have tags : (part payload 40 (slotCount payload)).all (·.toNat ≤ 4) = true := by decide
    simpa using tags
  statuses := by
    have tags : (part payload (statusStart payload) (outstandingCount payload)).all
      (·.toNat ≤ 4) = true := by decide
    simpa using tags
  continuations := by decide
  outstanding := by decide
  continuationLimit := by decide
  outstandingLimit := by decide
  deciders := List.pairwise_singleton _ 1
  actions := List.pairwise_singleton _ 5

theorem decode_documented_sample :
    ∃ actor, decode payload = .ok actor ∧
      encode actor = payload.take 4 ++ [1, 0, 0, 0] ++ payload.drop 8 ∧
      (∃ cause, decode payload.dropLast = .error cause) ∧ Walk.decode payload = .ok actor := by
  obtain ⟨accepts, written, alone, walked⟩ := decode_documented payload
  obtain ⟨actor, accepted⟩ := accepts.mpr documented_payload
  refine ⟨actor, accepted, written actor accepted, ?_, ?_⟩
  · exact alone actor _ accepted (.inl (List.dropLast_prefix payload)) (by decide)
  · rw [walked (by decide), accepted]
    rfl

end Layout

end BehaviorTree
