import BehaviorTree.Machine.Frame
import BehaviorTree.Proofs.Storage.Outcomes

namespace BehaviorTree.Ordered

/-- An access to the entries or to the slots, at a position. -/
inductive Access where
  | readEntry (position : Nat)
  | writeEntry (position : Nat)
  | readSlot (position : Nat)
  | writeSlot (position : Nat)
  deriving DecidableEq, Repr

/-- The position of the access is one of so many entries, or of so many slots. -/
def Access.Within (entryCount slotCount : Nat) : Access → Prop
  | .readEntry position | .writeEntry position => position < entryCount
  | .readSlot position | .writeSlot position => position < slotCount

/-- The accesses are within bounds, and each entry that is written has been read before. -/
structure Careful (entryCount slotCount : Nat) (accesses : List Access) : Prop where
  within : ∀ access ∈ accesses, access.Within entryCount slotCount
  readFirst : ∀ position before after,
    accesses = before ++ .writeEntry position :: after → .readEntry position ∈ before

/-- A computation that keeps account of its accesses. -/
abbrev Accounting := StateT (List Access) Checked

namespace Accounting

/-- One access, for what it gives. -/
def access {γ : Type} (attempt : Access) (outcome : Checked γ) : Accounting γ := fun accesses => do
  return (← outcome, accesses ++ [attempt])

variable {α σ : Type} [Keyed α] [Parking α σ]

/-- The placing of an entry: it is written, and compared with the entry after it. -/
def place (output : Output α) (entry : α) : Accounting (Output α) := do
  if output.write = 0 then throw .outOfBounds
  let write := output.write - 1
  let entries ← access (.writeEntry write) (writeAt output.entries write entry)
  if write + 1 = entries.size then return { output with entries, write }
  let written ← access (.readEntry write) (readAt entries write)
  let next ← access (.readEntry (write + 1)) (readAt entries (write + 1))
  return {
    entries, write
    ascending := output.ascending && decide (key written < key next) }

/-- The release of held entries. -/
def release (leaves : Nat → Bool) (slots : Array σ) :
    Nat → Output α → Accounting (Nat × Output α)
  | 0, output => return (0, output)
  | held + 1, output => do
    let entry : α := Parking.parked (← access (.readSlot held) (readAt slots held))
    if leaves (key entry) then release leaves slots held (← place output entry)
    else return (held + 1, output)

/-- The return of the held entries behind the unread ones. -/
def unpark (slots : Array σ) (start : Nat) : Nat → Array α → Accounting (Array α)
  | 0, entries => return entries
  | held + 1, entries => do
    let entries ← unpark slots start held entries
    let entry : α := Parking.parked (← access (.readSlot held) (readAt slots held))
    access (.writeEntry (start + held)) (writeAt entries (start + held) entry)

/-- The scan, up to where the given sort takes over. -/
def scan (sort : Array α → Array α) :
    Nat → Array σ → Nat → Output α → Accounting (Reordered α σ)
  | 0, slots, held, output => do
    let (_, output) ← release (fun _ => true) slots held output
    require (output.write == 0) .unfilledOutput
    let entries := if output.ascending then output.entries else sort output.entries
    return { entries, slots, linear := output.ascending }
  | position + 1, slots, held, output => do
    let current ← access (.readEntry position) (readAt output.entries position)
    let (held, output) ← release (fun above => decide (key current < above)) slots held output
    if held = slots.size then
      let entries ← unpark slots position held output.entries
      let entries ← access (.writeEntry (position + held))
        (writeAt entries (position + held) current)
      return { entries := sort entries, slots, linear := false }
    let stale ← access (.readSlot held) (readAt slots held)
    let slots ← access (.writeSlot held) (writeAt slots held (Parking.parkIn stale current))
    scan sort position slots (held + 1) output

/-- The reorder, with all its accesses up to where the given sort takes over. -/
def reorderWith (sort : Array α → Array α) (entries : Array α) (slots : Array σ) :
    Checked (Reordered α σ × List Access) :=
  scan sort entries.size slots 0 { entries, write := entries.size, ascending := true } []

end Accounting

/-- The accesses so far are careful, and every entry from a position on has been read. -/
structure Informed (entryCount slotCount unread : Nat) (accesses : List Access) : Prop
    extends Careful entryCount slotCount accesses where
  known : ∀ position, unread ≤ position → position < entryCount → .readEntry position ∈ accesses

namespace Informed
variable {entryCount slotCount unread position : Nat} {accesses : List Access}

/-- Nothing is accessed, and nothing read. -/
theorem start (entryCount slotCount : Nat) : Informed entryCount slotCount entryCount [] where
  within _ member := absurd member List.not_mem_nil
  readFirst _ before _ same := by simp at same
  known _ least less := absurd less (Nat.not_lt.mpr least)

/-- One more access within bounds, which writes no entry that is still unread. -/
theorem append {access : Access} (informed : Informed entryCount slotCount unread accesses)
    (within : access.Within entryCount slotCount)
    (cautious : ∀ position, access = .writeEntry position → unread ≤ position) :
    Informed entryCount slotCount unread (accesses ++ [access]) where
  within other member := by
    rcases List.mem_append.mp member with earlier | last
    · exact informed.within other earlier
    · obtain rfl := List.mem_singleton.mp last
      exact within
  readFirst position before after same := by
    rcases List.eq_nil_or_concat after with rfl | ⟨front, last, rfl⟩
    · obtain ⟨rfl, written⟩ := List.append_inj' same rfl
      obtain rfl := (List.cons.inj written).1
      exact informed.known position (cautious position rfl) within
    · rw [List.concat_eq_append, ← List.cons_append, ← List.append_assoc] at same
      exact informed.readFirst position before front (List.append_inj' same rfl).1
  known position least less := List.mem_append_left _ (informed.known position least less)

/-- The last unread entry is read. -/
theorem read (informed : Informed entryCount slotCount (position + 1) accesses)
    (within : position < entryCount) :
    Informed entryCount slotCount position (accesses ++ [.readEntry position]) where
  toCareful := by
    have kept : Informed entryCount slotCount (position + 1) (accesses ++ [.readEntry position]) :=
      informed.append within fun _ same => Access.noConfusion same
    exact kept.toCareful
  known other least less := by
    rcases Nat.eq_or_lt_of_le least with rfl | later
    · simp
    · exact List.mem_append_left _ (informed.known other later less)

end Informed

open Checked

namespace Accounting
variable {γ δ : Type}

/-- A computation comes to a value, and its accesses are careful, if at first all entries from
one position on are known, and in the end those from another position on. -/
def ComesTo (entryCount slotCount first last : Nat) (computation : Accounting γ) (value : γ) :
    Prop :=
  ∀ accesses, Informed entryCount slotCount first accesses →
    ∃ after, computation accesses = .ok (value, after) ∧ Informed entryCount slotCount last after

namespace ComesTo
variable {entryCount slotCount first middle last position : Nat}

theorem pure (value : γ) :
    ComesTo entryCount slotCount first first (Pure.pure value) value :=
  fun accesses informed => ⟨accesses, rfl, informed⟩

theorem bind {computation : Accounting γ} {next : γ → Accounting δ} {value : γ} {result : δ}
    (comes : ComesTo entryCount slotCount first middle computation value)
    (goes : ComesTo entryCount slotCount middle last (next value) result) :
    ComesTo entryCount slotCount first last (computation >>= next) result := by
  intro accesses informed
  obtain ⟨between, ran, known⟩ := comes accesses informed
  obtain ⟨after, rest, ends⟩ := goes between known
  refine ⟨after, ?_, ends⟩
  simp only [Bind.bind, StateT.bind, ran, Except.bind]
  exact rest

/-- What accesses nothing. -/
theorem lift {outcome : Checked γ} {value : γ} (succeeds : outcome = .ok value) :
    ComesTo entryCount slotCount first first (liftM outcome) value := by
  subst succeeds
  exact fun accesses informed => ⟨accesses, rfl, informed⟩

/-- An access within bounds that writes no unread entry. -/
theorem access {attempt : Access} {outcome : Checked γ} {value : γ}
    (succeeds : outcome = .ok value) (within : attempt.Within entryCount slotCount)
    (cautious : ∀ position, attempt = .writeEntry position → first ≤ position) :
    ComesTo entryCount slotCount first first (Accounting.access attempt outcome) value := by
  subst succeeds
  exact fun accesses informed => ⟨_, rfl, informed.append within cautious⟩

theorem readSlot {slots : Array γ} (inside : position < slots.size)
    (size : slots.size = slotCount) :
    ComesTo entryCount slotCount first first
      (Accounting.access (.readSlot position) (readAt slots position)) slots[position] :=
  access (readAt_eq_ok inside) (size ▸ inside) fun _ same => Access.noConfusion same

theorem writeSlot {slots : Array γ} (inside : position < slots.size)
    (size : slots.size = slotCount) (value : γ) :
    ComesTo entryCount slotCount first first
      (Accounting.access (.writeSlot position) (writeAt slots position value))
      (slots.set position value) :=
  access (writeAt_eq_ok inside value) (size ▸ inside) fun _ same => Access.noConfusion same

theorem readEntry {entries : Array γ} (inside : position < entries.size)
    (size : entries.size = entryCount) :
    ComesTo entryCount slotCount first first
      (Accounting.access (.readEntry position) (readAt entries position)) entries[position] :=
  access (readAt_eq_ok inside) (size ▸ inside) fun _ same => Access.noConfusion same

/-- An entry is written that has been read. -/
theorem writeEntry {entries : Array γ} (inside : position < entries.size)
    (size : entries.size = entryCount) (known : first ≤ position) (value : γ) :
    ComesTo entryCount slotCount first first
      (Accounting.access (.writeEntry position) (writeAt entries position value))
      (entries.set position value) :=
  access (writeAt_eq_ok inside value) (size ▸ inside) fun _ same =>
    Access.writeEntry.inj same ▸ known

/-- The last unread entry is read. -/
theorem readNext {entries : Array γ} (inside : position < entries.size)
    (size : entries.size = entryCount) :
    ComesTo entryCount slotCount (position + 1) position
      (Accounting.access (.readEntry position) (readAt entries position)) entries[position] := by
  rw [readAt_eq_ok inside]
  exact fun accesses informed => ⟨_, rfl, informed.read (size ▸ inside)⟩

end ComesTo

variable {α σ : Type} [Keyed α] [Parking α σ] {entryCount slotCount unread : Nat}

/-- An entry is placed at a position that has been read. -/
theorem place_comesTo {output after : Output α} {entry : α}
    (placed : output.place entry = .ok after) (size : output.entries.size = entryCount)
    (room : unread < output.write) (within : output.write ≤ output.entries.size) :
    ComesTo entryCount slotCount unread unread (place output entry) after := by
  have inside : output.write - 1 < output.entries.size := by omega
  have start : output.write - 1 + 1 = output.write := by omega
  have unfilled : output.write ≠ 0 := by omega
  simp only [Output.place, unfilled, if_false, writeAt_eq_ok inside, ok_bind] at placed
  obtain rfl := Except.ok.inj placed
  simp only [place, unfilled, if_false, start]
  refine (ComesTo.writeEntry inside size (by omega) entry).bind ?_
  have same : (output.entries.set (output.write - 1) entry).size = entryCount := by simp [size]
  have there : (output.entries.set (output.write - 1) entry)[output.write - 1]? = some entry := by
    simp [inside]
  generalize output.entries.set (output.write - 1) entry = entries at same there ⊢
  by_cases last : output.write = entries.size
  · have none : entries[output.write]? = none := by simp [last]
    simp only [if_pos last, none, Bool.and_true]
    exact ComesTo.pure _
  · have further : output.write < entries.size := by omega
    obtain ⟨_, written⟩ := Array.getElem?_eq_some_iff.mp there
    simp only [if_neg last, Array.getElem?_eq_getElem further]
    refine (ComesTo.readEntry (by omega) same).bind ((ComesTo.readEntry further same).bind ?_)
    rw [written]
    exact ComesTo.pure _

/-- Held entries leave for positions that have been read. -/
theorem release_comesTo {leaves : Nat → Bool} {slots : Array σ} {count left : Nat}
    {output after : Output α}
    (released : Ordered.release leaves slots count output = .ok (left, after))
    (slotSize : slots.size = slotCount) (size : output.entries.size = entryCount)
    (inside : count ≤ slots.size) (room : unread + count ≤ output.write) (valid : output.Valid) :
    ComesTo entryCount slotCount unread unread (release leaves slots count output)
      (left, after) := by
  induction count generalizing output with
  | zero =>
    obtain ⟨rfl, rfl⟩ := Prod.mk.inj (Except.ok.inj released)
    exact ComesTo.pure _
  | succ count ih =>
    have top : count < slots.size := inside
    simp only [Ordered.release, readAt_eq_ok top, ok_bind] at released
    simp only [release]
    refine (ComesTo.readSlot top slotSize).bind ?_
    split at released
    case isTrue leave =>
      obtain ⟨middle, placed, extended⟩ :=
        Output.place_extends valid (by omega) (Parking.parked slots[count] : α)
      rw [placed, ok_bind] at released
      rw [if_pos leave]
      have writes := extended.write
      simp only [List.length_singleton] at writes
      refine (place_comesTo placed size (by omega) valid.within).bind ?_
      exact ih released (extended.size.trans size) (by omega) (by omega) extended.valid
    case isFalse stay =>
      obtain ⟨rfl, rfl⟩ := Prod.mk.inj (Except.ok.inj released)
      rw [if_neg stay]
      exact ComesTo.pure _

omit [Keyed α] in
/-- Held entries return to positions that have been read. -/
theorem unpark_comesTo {slots : Array σ} {start count : Nat} {entries after : Array α}
    (unparked : Ordered.unpark slots start count entries = .ok after)
    (slotSize : slots.size = slotCount) (size : entries.size = entryCount)
    (inside : count ≤ slots.size) (known : unread ≤ start) (room : start + count ≤ entries.size) :
    ComesTo entryCount slotCount unread unread (unpark slots start count entries) after := by
  induction count generalizing after with
  | zero =>
    obtain rfl := Except.ok.inj unparked
    exact ComesTo.pure _
  | succ count ih =>
    have below : start + count ≤ entries.size := by omega
    obtain ⟨middle, earlier, same, -⟩ := unpark_ok (Nat.le_of_succ_le inside) below
    have top : count < slots.size := inside
    simp only [Ordered.unpark, earlier, ok_bind, readAt_eq_ok top] at unparked
    rw [writeAt_eq_ok (by omega)] at unparked
    obtain rfl := Except.ok.inj unparked
    refine (ih earlier (by omega) (by omega)).bind ((ComesTo.readSlot top slotSize).bind ?_)
    exact ComesTo.writeEntry (by omega) (same.trans size) (by omega) _

/-- A scan reads an entry before it writes over it. -/
theorem scan_comesTo {sort : Array α → Array α} {position count : Nat} {slots : Array σ}
    {output : Output α} {result : Reordered α σ}
    (scanned : Ordered.scan sort position slots count output = .ok result)
    (slotSize : slots.size = slotCount) (size : output.entries.size = entryCount)
    (inside : count ≤ slots.size) (write : output.write = position + count)
    (valid : output.Valid) :
    ∃ last, ComesTo entryCount slotCount position last (scan sort position slots count output)
      result := by
  induction position generalizing count slots output with
  | zero =>
    obtain ⟨after, released, -⟩ := release_all inside (by omega) valid
    simp only [Ordered.scan, released, ok_bind] at scanned
    obtain ⟨_, filled, ended⟩ := bind_eq_ok.mp scanned
    obtain rfl := Except.ok.inj ended
    refine ⟨0, (release_comesTo released slotSize size inside (by omega) valid).bind ?_⟩
    exact (ComesTo.lift filled).bind (ComesTo.pure _)
  | succ position ih =>
    have within := valid.within
    have reads : position < output.entries.size := by omega
    obtain ⟨left, after, released, fewer, extended, -⟩ :=
      release_extends (fun above => decide (key output.entries[position] < above)) inside
        (by omega) valid
    have writes := extended.write
    rw [List.length_drop, length_held inside] at writes
    have same := extended.size
    have full : position + left < after.entries.size := by omega
    simp only [Ordered.scan, readAt_eq_ok reads, ok_bind, released] at scanned
    suffices rest : ∃ last, ComesTo entryCount slotCount position last _ result from
      rest.imp fun last goes => (ComesTo.readNext reads size).bind
        ((release_comesTo released slotSize size inside (by omega) valid).bind goes)
    by_cases overflow : left = slots.size
    · obtain ⟨middle, unparked, kept, -⟩ :=
        unpark_ok (Nat.le_of_eq overflow) (Nat.le_of_lt full)
      have room : position + left < middle.size := by omega
      simp only [if_pos overflow, unparked, ok_bind, writeAt_eq_ok room] at scanned
      obtain rfl := Except.ok.inj scanned
      simp only [if_pos overflow]
      refine ⟨position, (unpark_comesTo unparked slotSize (same.trans size) (Nat.le_of_eq overflow)
        (Nat.le_refl _) (Nat.le_of_lt full)).bind ?_⟩
      exact (ComesTo.writeEntry room (kept.trans (same.trans size)) (by omega) _).bind
        (ComesTo.pure _)
    · have room : left < slots.size := by omega
      simp only [if_neg overflow, readAt_eq_ok room, writeAt_eq_ok room, ok_bind] at scanned
      simp only [if_neg overflow]
      obtain ⟨last, goes⟩ := ih scanned (by simpa using slotSize) (same.trans size)
        (by simpa using Nat.succ_le_of_lt room) (by omega) extended.valid
      exact ⟨last, (ComesTo.readSlot room slotSize).bind
        ((ComesTo.writeSlot room slotSize _).bind goes)⟩

end Accounting

/-- A reorder sorts, whatever sort takes over, with slots of any number that hold anything. It
accesses nothing out of bounds, and writes over no entry that it has not read before. -/
theorem reorder_careful {α σ : Type} [Keyed α] [Parking α σ] [LawfulParking α σ]
    {sort : Array α → Array α} (sorting : Sorting sort) (entries : Array α) (slots : Array σ) :
    ∃ result accesses, reorderWith sort entries slots = .ok result ∧
      result.entries.toList.Perm entries.toList ∧ NonDecreasing result.entries.toList ∧
      Accounting.reorderWith sort entries slots = .ok (result, accesses) ∧
      Careful entries.size slots.size accesses := by
  obtain ⟨result, reordered, sorts⟩ := reorderWith_sorts sorting entries slots
  have valid : Output.Valid ⟨entries, entries.size, true⟩ := Output.valid_start entries
  obtain ⟨last, comes⟩ := Accounting.scan_comesTo reordered rfl rfl (Nat.zero_le _) rfl valid
  obtain ⟨accesses, ran, informed⟩ := comes [] (Informed.start entries.size slots.size)
  exact ⟨result, accesses, reordered, sorts.perm, sorts.ordered, ran, informed.toCareful⟩

namespace Sample

/-- Continuations in no order of a traversal, two of them of one atom. -/
def scattered : Array (Entry Nat) := #[⟨4, 6⟩, ⟨2, 3⟩, ⟨2, 5⟩, ⟨1, 2⟩]

/-- Frames that still hold what a traversal left. -/
def used : Array Frame := #[⟨7, 9, 1, 0, .concurrent .running⟩, ⟨8, 9, 1, 1, .sequence 9⟩]

end Sample

/-- Four continuations are too many for two frames. -/
theorem reorder_careful_sample :
    Sorting (sortByKey (α := Entry Nat)) ∧
    ∃ result accesses, reorder Sample.scattered Sample.used = .ok result ∧
      result.entries.toList.Perm Sample.scattered.toList ∧
      NonDecreasing result.entries.toList ∧
      Accounting.reorderWith sortByKey Sample.scattered Sample.used = .ok (result, accesses) ∧
      Careful 4 2 accesses :=
  ⟨sorting_sortByKey, reorder_careful sorting_sortByKey Sample.scattered Sample.used⟩

/-- The scan stops where both frames are taken, and puts what they hold back behind the entry that
it has not read. -/
example : (Accounting.reorderWith (fun _ => #[]) Sample.scattered Sample.used).map Prod.snd =
    .ok [.readEntry 3, .readSlot 0, .writeSlot 0, .readEntry 2, .readSlot 0, .readSlot 1,
      .writeSlot 1, .readEntry 1, .readSlot 1, .readSlot 0, .writeEntry 1, .readSlot 1,
      .writeEntry 2, .writeEntry 3] := rfl

end BehaviorTree.Ordered
