import BehaviorTree.Proofs.Ordered.Reorder

/-!
An entry stays on the stack as long as nothing smaller is read, and is written when something
smaller is.
-/

namespace BehaviorTree.Ordered
variable {α σ : Type}

section
variable {first second third : Nat} {front behind : List Nat}

/-- Two keys of two lists come from one of them or from both. -/
theorem pair_sublist_append (within : [first, second].Sublist (front ++ behind)) :
    [first, second].Sublist front ∨ (first ∈ front ∧ second ∈ behind) ∨
      [first, second].Sublist behind := by
  obtain ⟨before, later, split, inFront, inBehind⟩ := List.sublist_append_iff.mp within
  rcases before with _ | ⟨one, _ | ⟨two, before⟩⟩
  · rw [List.nil_append] at split
    exact Or.inr (Or.inr (split ▸ inBehind))
  · obtain ⟨rfl, rfl⟩ := List.cons.inj split
    exact Or.inr (Or.inl ⟨List.singleton_sublist.mp inFront, List.singleton_sublist.mp inBehind⟩)
  · simp only [List.cons_append, List.cons.injEq, List.nil_eq, List.append_eq_nil_iff] at split
    obtain ⟨rfl, rfl, rfl, rfl⟩ := split
    exact Or.inl inFront

/-- Three keys of two lists come from one of them, or the first ones come from the first list. -/
theorem triple_sublist_append (within : [first, second, third].Sublist (front ++ behind)) :
    [first, second, third].Sublist front ∨ ([first, second].Sublist front ∧ third ∈ behind) ∨
      (first ∈ front ∧ [second, third].Sublist behind) ∨
        [first, second, third].Sublist behind := by
  obtain ⟨before, later, split, inFront, inBehind⟩ := List.sublist_append_iff.mp within
  rcases before with _ | ⟨one, _ | ⟨two, _ | ⟨three, before⟩⟩⟩
  · rw [List.nil_append] at split
    exact Or.inr (Or.inr (Or.inr (split ▸ inBehind)))
  · obtain ⟨rfl, rfl⟩ := List.cons.inj split
    exact Or.inr (Or.inr (Or.inl ⟨List.singleton_sublist.mp inFront, inBehind⟩))
  · simp only [List.cons_append, List.nil_append, List.cons.injEq] at split
    obtain ⟨rfl, rfl, rfl⟩ := split
    exact Or.inr (Or.inl ⟨inFront, List.singleton_sublist.mp inBehind⟩)
  · simp only [List.cons_append, List.cons.injEq, List.nil_eq, List.append_eq_nil_iff] at split
    obtain ⟨rfl, rfl, rfl, rfl, rfl⟩ := split
    exact Or.inl inFront

end

/-- A key with a smaller one somewhere in front of it lies above all keys in front of that one. -/
def Sortable (keys : List Nat) : Prop :=
  ∀ first dip last, [first, dip, last].Sublist keys → dip < last → first < last

theorem Sortable.sublist {keys others : List Nat} (sortable : Sortable keys)
    (fewer : others.Sublist keys) : Sortable others :=
  fun first dip last within less => sortable first dip last (within.trans fewer) less

/-- The keys that lie below all keys in front of them. -/
def minima : List Nat → List Nat
  | [] => []
  | first :: rest => first :: (minima rest).filter fun other => decide (other < first)

theorem minima_sublist (keys : List Nat) : (minima keys).Sublist keys := by
  induction keys with
  | nil => exact .slnil
  | cons first rest ih => exact .cons_cons first (List.filter_sublist.trans ih)

/-- The minima fall. -/
theorem pairwise_minima (keys : List Nat) : (minima keys).Pairwise (· > ·) := by
  induction keys with
  | nil => exact .nil
  | cons first rest ih =>
    refine .cons (fun other member => ?_) (ih.filter _)
    exact of_decide_eq_true (List.mem_filter.mp member).2

/-- Of two lists together, the minima are those of the first, and those of the second that lie
below the first. -/
theorem minima_append (first second : List Nat) : minima (first ++ second) =
    minima first ++ (minima second).filter fun low => first.all fun above => decide (low < above) :=
  by
  induction first with
  | nil => simp [minima]
  | cons head rest ih =>
    rw [List.cons_append, minima, ih, List.filter_append, List.filter_filter, minima,
      List.cons_append]
    simp

/-- Keys of nested spans as they are emitted at the ends of the spans: the keys lie from `low` on
and before `high`, and no more than `depth` of them belong to spans around each other. -/
structure PostOrder (low high depth : Nat) (keys : List Nat) : Prop where
  within : ∀ key ∈ keys, low ≤ key ∧ key < high
  distinct : keys.Nodup
  sortable : Sortable keys
  nesting : ∀ rest, rest <:+ keys → (minima rest).length ≤ depth

namespace PostOrder
variable {low middle high depth : Nat} {keys others : List Nat}

theorem nil : PostOrder low high depth [] where
  within key member := by cases member
  distinct := .nil
  sortable first dip last within := by simp at within
  nesting rest suffix := by simp [List.suffix_nil.mp suffix, minima]

theorem mono (posts : PostOrder low high depth keys) {lower higher deeper : Nat}
    (below : lower ≤ low) (above : high ≤ higher) (deep : depth ≤ deeper) :
    PostOrder lower higher deeper keys where
  within key member := by
    have := posts.within key member
    omega
  distinct := posts.distinct
  sortable := posts.sortable
  nesting rest suffix := Nat.le_trans (posts.nesting rest suffix) deep

/-- One span after the other. -/
theorem append (first : PostOrder low middle depth keys)
    (second : PostOrder middle high depth others) (below : low ≤ middle) (above : middle ≤ high) :
    PostOrder low high depth (keys ++ others) := by
  have apart (key : Nat) (before : key ∈ keys) (other : Nat) (behind : other ∈ others) :
      key < other :=
    Nat.lt_of_lt_of_le (first.within key before).2 (second.within other behind).1
  constructor
  case within =>
    intro key member
    rcases List.mem_append.mp member with member | member
    · have := first.within key member
      omega
    · have := second.within key member
      omega
  case distinct =>
    rw [List.nodup_append]
    exact ⟨first.distinct, second.distinct,
      fun key before other behind => Nat.ne_of_lt (apart key before other behind)⟩
  case sortable =>
    intro low dip high within less
    rcases triple_sublist_append within with within | ⟨before, later⟩ | ⟨before, later⟩ | within
    · exact first.sortable low dip high within less
    · exact apart low (before.mem List.mem_cons_self) high later
    · exact apart low before high (later.mem (by simp))
    · exact second.sortable low dip high within less
  case nesting =>
    intro rest suffix
    obtain ⟨front, split⟩ := suffix
    obtain ⟨more, keys_eq, rest_eq⟩ | ⟨more, front_eq, others_eq⟩ :=
      List.append_eq_append_iff.mp split
    · -- What is left of the first list lies below the second one.
      cases more with
      | nil =>
        rw [rest_eq]
        exact second.nesting _ (List.suffix_refl _)
      | cons top more =>
        have here : top ∈ keys := by simp [keys_eq]
        have none : (minima others).filter
            (fun low => (top :: more).all fun above => decide (low < above)) = [] := by
          rw [List.filter_eq_nil_iff]
          intro other member all
          have less := of_decide_eq_true (List.all_eq_true.mp all top List.mem_cons_self)
          have more := apart top here other ((minima_sublist others).mem member)
          omega
        rw [rest_eq, minima_append, none, List.append_nil]
        exact first.nesting _ ⟨front, keys_eq.symm⟩
    · exact second.nesting rest ⟨more, others_eq.symm⟩

/-- A span is emitted behind all that lies in it. -/
theorem close (posts : PostOrder (low + 1) high depth keys) (used : low < high) :
    PostOrder low high (depth + 1) (keys ++ [low]) := by
  have above (key : Nat) (member : key ∈ keys) : low < key := (posts.within key member).1
  constructor
  case within =>
    intro key member
    rcases List.mem_append.mp member with member | last
    · have := posts.within key member
      omega
    · obtain rfl := List.mem_singleton.mp last
      omega
  case distinct =>
    rw [List.nodup_append]
    refine ⟨posts.distinct, List.nodup_singleton low, fun key member other last => ?_⟩
    obtain rfl := List.mem_singleton.mp last
    exact (Nat.ne_of_lt (above key member)).symm
  case sortable =>
    intro first dip last within less
    rcases triple_sublist_append within with within | ⟨before, later⟩ | ⟨-, later⟩ | within
    · exact posts.sortable first dip last within less
    · -- Nothing lies below the span that is emitted last.
      obtain rfl := List.mem_singleton.mp later
      have := above dip (before.mem (by simp))
      omega
    · simpa using later.length_le
    · simpa using within.length_le
  case nesting =>
    intro rest suffix
    rcases List.suffix_concat_iff.mp suffix with rfl | ⟨more, rfl, inner⟩
    · exact Nat.zero_le _
    · have inner := posts.nesting more inner
      rw [minima_append, List.length_append]
      have last : ((minima [low]).filter
          fun low => more.all fun above => decide (low < above)).length ≤ 1 :=
        List.length_filter_le _ _
      omega

end PostOrder

variable [Keyed α]

/-- What lies below all that has been written keeps the output ascending. -/
theorem Output.place_ascending {output : Output α} (valid : output.Valid) (room : 0 < output.write)
    (ascending : output.ascending = true) {entry : α}
    (below : ∀ other ∈ output.written, key entry < key other) :
    ∃ after, output.place entry = .ok after ∧ Extends output after [entry] ∧
      after.ascending = true := by
  obtain ⟨after, placed, extends_⟩ := place_extends valid room entry
  refine ⟨after, placed, extends_, ?_⟩
  have inside : output.write - 1 < output.entries.size := by
    have := valid.within
    omega
  have apart : output.write - 1 ≠ output.write := by omega
  simp only [place, Nat.ne_of_gt room, if_false, writeAt, dif_pos inside, bind, Except.bind, pure,
    Except.pure] at placed
  obtain rfl := Except.ok.inj placed
  simp only [ascending, Bool.true_and, Array.getElem?_set_ne inside apart]
  split
  · next other found =>
    have first : output.written[0]? = some other := by simpa [written] using found
    exact decide_eq_true (below other (List.mem_of_getElem? first))
  · rfl

variable [Parking α σ]

/-- A release of entries that lie below the output leaves just those that do not satisfy the
condition, if a larger key does whenever a smaller one does. -/
theorem release_linear (leaves : Nat → Bool)
    (upward : ∀ {low high}, low ≤ high → leaves low = true → leaves high = true) {slots : Array σ}
    {count : Nat} {output : Output α} (inside : count ≤ slots.size) (room : count ≤ output.write)
    (valid : output.Valid) (ascending : output.ascending = true)
    (ordered : Ascending (held slots count : List α))
    (below : ∀ entry ∈ (held slots count : List α), ∀ other ∈ output.written,
      key entry < key other) :
    ∃ left after, release leaves slots count output = .ok (left, after) ∧ left ≤ count ∧
      Output.Extends output after ((held slots count).drop left) ∧ after.ascending = true ∧
      (∀ entry ∈ (held slots left : List α), leaves (key entry) = false) ∧
      ∀ entry ∈ (held slots count : List α).drop left, leaves (key entry) = true := by
  induction count generalizing output with
  | zero =>
    exact ⟨0, output, rfl, Nat.le_refl 0, .refl valid, ascending, by simp [held], by simp [held]⟩
  | succ count ih =>
    have next := held_succ (α := α) (Nat.lt_of_succ_le inside)
    have read := readAt_eq_ok (Nat.lt_of_succ_le inside)
    generalize slots[count] = top at next read
    rw [next] at ordered below
    obtain ⟨ordered, -, lower⟩ := List.pairwise_append.mp ordered
    by_cases leave : leaves (key (Parking.parked top : α)) = true
    · obtain ⟨middle, placed, extends_, middle_ascending⟩ := Output.place_ascending valid
        (by omega) ascending (below (Parking.parked top) (by simp))
      have writes := extends_.write
      simp only [List.length_singleton] at writes
      obtain ⟨left, after, released, fewer, upper, after_ascending, stay, gone⟩ :=
        ih (by omega) (by omega) extends_.valid middle_ascending ordered (by
          intro entry member other written
          rw [extends_.written] at written
          rcases List.mem_append.mp written with here | written
          · exact lower entry member other here
          · exact below entry (List.mem_append_left _ member) other written)
      have shorter : left ≤ (held slots count : List α).length := by
        rw [length_held (by omega)]
        exact fewer
      refine ⟨left, after, ?_, by omega, ?_, after_ascending, stay, ?_⟩
      · simp only [release, read, bind, Except.bind, leave, if_true, placed]
        exact released
      · rw [next, List.drop_append_of_le_length shorter]
        exact extends_.trans upper
      · intro entry member
        rw [next, List.drop_append_of_le_length shorter] at member
        rcases List.mem_append.mp member with member | here
        · exact gone entry member
        · rw [List.mem_singleton.mp here]
          exact leave
    · refine ⟨count + 1, output, ?_, Nat.le_refl _, ?_, ascending, ?_, ?_⟩
      · simp only [release, read, bind, Except.bind, leave, Bool.false_eq_true, if_false]
        rfl
      · rw [List.drop_eq_nil_of_le (by rw [length_held inside])]
        exact .refl valid
      · intro entry member
        rw [Bool.eq_false_iff]
        intro satisfied
        apply leave
        rw [next] at member
        rcases List.mem_append.mp member with member | here
        · exact upward (Nat.le_of_lt (lower entry member _ (List.mem_singleton_self _))) satisfied
        · rw [← List.mem_singleton.mp here]
          exact satisfied
      · intro entry member
        rw [List.drop_eq_nil_of_le (by rw [length_held inside])] at member
        cases member

/-- A scan has come to a position, and the stack holds the minima of what it has read. -/
structure Stacked (keys : List Nat) (position : Nat) (slots : Array σ) (count : Nat)
    (output : Output α) : Prop where
  inside : count ≤ slots.size
  write : output.write = position + count
  valid : output.Valid
  unread : (output.entries.toList.take position).map key = keys.take position
  stack : (held slots count : List α).map key = (minima (keys.drop position)).reverse

/-- A scan has come to a position without a disorder: what it has written ascends, and all that is
left lies below. -/
structure Linearly (keys : List Nat) (position : Nat) (slots : Array σ) (count : Nat)
    (output : Output α) : Prop extends Stacked keys position slots count output where
  ascending : output.ascending = true
  below : ∀ other ∈ output.written,
    ∀ low ∈ keys.take position ++ minima (keys.drop position), low < key other

namespace Linearly
variable {keys : List Nat} {position : Nat} {slots : Array σ} {count : Nat} {output : Output α}

/-- What is on the stack ascends. -/
theorem ordered (linearly : Linearly keys position slots count output) :
    Ascending (held slots count : List α) := by
  have falls := pairwise_minima (keys.drop position)
  rw [← List.pairwise_reverse, ← linearly.stack, List.pairwise_map] at falls
  exact falls

theorem minimal (linearly : Linearly keys position slots count output) {entry : α}
    (member : entry ∈ held slots count) : key entry ∈ minima (keys.drop position) := by
  rw [← List.mem_reverse, ← linearly.stack]
  exact List.mem_map_of_mem member

/-- What is on the stack lies below what has been written. -/
theorem held_below (linearly : Linearly keys position slots count output) {entry : α}
    (member : entry ∈ held slots count) {other : α} (written : other ∈ output.written) :
    key entry < key other :=
  linearly.below other written _ (List.mem_append_right _ (linearly.minimal member))

/-- The entry that is read next has the next key, and those before it have the keys before. -/
theorem next (linearly : Linearly keys (position + 1) slots count output)
    (within : position < keys.length) :
    ∃ current, readAt output.entries position = .ok current ∧ key current = keys[position] ∧
      (output.entries.toList.take position).map key = keys.take position := by
  have inside : position < output.entries.size := by
    have write := linearly.write
    have bound := linearly.valid.within
    omega
  have unread := linearly.unread
  rw [List.take_add_one, List.take_add_one, Array.getElem?_toList,
    Array.getElem?_eq_getElem inside, List.getElem?_eq_getElem within, Option.toList_some,
    Option.toList_some, List.map_append] at unread
  obtain ⟨earlier, here⟩ := List.append_inj' unread rfl
  exact ⟨output.entries[position], readAt_eq_ok inside, by simpa using here, earlier⟩

/-- Of the stack, the minima that are smaller than a new key stay. -/
theorem stays (linearly : Linearly keys position slots count output) {bound left : Nat}
    (absent : bound ∉ keys.drop position) (fewer : left ≤ count)
    (stay : ∀ entry ∈ (held slots left : List α), decide (bound < key entry) = false)
    (gone : ∀ entry ∈ (held slots count : List α).drop left, decide (bound < key entry) = true) :
    (held slots left : List α).map key =
      ((minima (keys.drop position)).filter fun other => decide (other < bound)).reverse := by
  have parts : (held slots left ++ (held slots count).drop left : List α) = held slots count :=
    held_append_drop slots fewer
  have lower : ((held slots left : List α).map key).filter
      (fun other => decide (other < bound)) = (held slots left : List α).map key := by
    rw [List.filter_eq_self]
    intro other member
    obtain ⟨entry, here, rfl⟩ := List.mem_map.mp member
    have notAbove := of_decide_eq_false (stay entry here)
    have waiting : entry ∈ (held slots count : List α) := by
      rw [← parts]
      exact List.mem_append_left _ here
    have present := (minima_sublist _).mem (linearly.minimal waiting)
    have different : key entry ≠ bound := fun same => absent (same ▸ present)
    apply decide_eq_true
    omega
  have upper : (((held slots count).drop left : List α).map key).filter
      (fun other => decide (other < bound)) = [] := by
    rw [List.filter_eq_nil_iff]
    intro other member
    obtain ⟨entry, leaves, rfl⟩ := List.mem_map.mp member
    have above := of_decide_eq_true (gone entry leaves)
    simp only [decide_eq_true_eq]
    omega
  rw [← List.filter_reverse, ← linearly.stack, ← parts, List.map_append, List.filter_append, lower,
    upper, List.append_nil]

/-- What lies above the next entry is written, and there is one minimum more than values that stay
on the stack, so that the entry can take its place there if there is a slot. -/
theorem released [LawfulParking α σ] (linearly : Linearly keys (position + 1) slots count output)
    (distinct : keys.Nodup) (within : position < keys.length) :
    ∃ current left after, readAt output.entries position = .ok current ∧
      key current = keys[position] ∧
      release (fun above => decide (key current < above)) slots count output = .ok (left, after) ∧
      left ≤ slots.size ∧ left + 1 = (minima (keys.drop position)).length ∧
      after.ascending = true ∧ Output.Extends output after ((held slots count).drop left) ∧
      (∀ entry ∈ (held slots count : List α).drop left, key current < key entry) ∧
      ∀ free : left < slots.size,
        Stacked keys position (slots.set left (Parking.parkIn slots[left] current) free) (left + 1)
          after := by
  have write := linearly.write
  obtain ⟨current, read, here, earlier⟩ := linearly.next within
  have opened : keys.drop position = key current :: keys.drop (position + 1) := by
    rw [here, List.drop_eq_getElem_cons within]
  have absent : key current ∉ keys.drop (position + 1) := by
    have rest : (keys.drop position).Nodup := distinct.sublist (List.drop_sublist _ _)
    rw [opened] at rest
    exact (List.nodup_cons.mp rest).1
  obtain ⟨left, after, released, fewer, extends_, ascending, stay, gone⟩ := release_linear
    (fun above => decide (key current < above))
    (fun less more => by simp only [decide_eq_true_eq] at more ⊢; omega)
    linearly.inside (by omega) linearly.valid linearly.ascending linearly.ordered
    (fun _ member _ written => linearly.held_below member written)
  have kept := linearly.stays absent fewer stay gone
  have most : left ≤ slots.size := Nat.le_trans fewer linearly.inside
  have size : left + 1 = (minima (keys.drop position)).length := by
    have := congrArg List.length kept
    rw [List.length_map, length_held most, List.length_reverse] at this
    rw [opened, minima, List.length_cons, this]
  have writes := extends_.write
  rw [List.length_drop, length_held linearly.inside] at writes
  refine ⟨current, left, after, read, here, released, most, size, ascending, extends_,
    fun entry member => of_decide_eq_true (gone entry member), fun free =>
    ⟨?_, ?_, extends_.valid, ?_, ?_⟩⟩
  · rw [Array.size_set]
    exact free
  · omega
  · rw [extends_.unread position (by omega)]
    exact earlier
  · rw [held_parkIn free, List.map_append, kept, opened, minima, List.reverse_cons]
    rfl

/-- The next entry is put on the stack, and what is unread lies below what is written. -/
theorem read [LawfulParking α σ] (linearly : Linearly keys (position + 1) slots count output)
    (sortable : Sortable keys) (distinct : keys.Nodup) (within : position < keys.length)
    (room : (minima (keys.drop position)).length ≤ slots.size) :
    ∃ current left after, readAt output.entries position = .ok current ∧
      release (fun above => decide (key current < above)) slots count output = .ok (left, after) ∧
      ∃ free : left < slots.size,
        Linearly keys position (slots.set left (Parking.parkIn slots[left] current) free)
          (left + 1) after := by
  obtain ⟨current, left, after, read, here, released, -, size, ascending, extends_, gone,
    stacked⟩ := linearly.released distinct within
  have opened : keys.drop position = key current :: keys.drop (position + 1) := by
    rw [here, List.drop_eq_getElem_cons within]
  have split : keys = keys.take position ++ key current :: keys.drop (position + 1) := by
    rw [← opened, List.take_append_drop]
  have free : left < slots.size := by omega
  refine ⟨current, left, after, read, released, free, ⟨stacked free, ascending, ?_⟩⟩
  intro other member low below
  rw [opened, minima] at below
  rw [extends_.written] at member
  rcases List.mem_append.mp member with now | before
  · -- What is written now lies above the current key, so the unread keys lie below it.
    have above := gone other now
    have present := (minima_sublist _).mem (linearly.minimal (List.mem_of_mem_drop now))
    rcases List.mem_append.mp below with unread | low
    · apply sortable low (key current) (key other) _ above
      rw [split]
      exact (List.singleton_sublist.mpr unread).append
        ((List.singleton_sublist.mpr present).cons_cons (key current))
    · rcases List.mem_cons.mp low with rfl | low
      · exact above
      · have := of_decide_eq_true (List.mem_filter.mp low).2
        omega
  · apply linearly.below other before
    rw [List.take_add_one, List.getElem?_eq_getElem within, ← here]
    rcases List.mem_append.mp below with unread | low
    · simp [unread]
    · rcases List.mem_cons.mp low with rfl | low
      · simp
      · simp [(List.mem_filter.mp low).1]

/-- Where the keys are different and sortable, and the stack holds the minima of each rest of them,
a scan is linear. -/
theorem scan [LawfulParking α σ] (sort : Array α → Array α)
    (linearly : Linearly keys position slots count output)
    (sortable : Sortable keys) (distinct : keys.Nodup) (within : position ≤ keys.length)
    (room : ∀ rest, rest <:+ keys → (minima rest).length ≤ slots.size) :
    ∃ result, scan sort position slots count output = .ok result ∧ result.linear = true := by
  induction position generalizing slots count output with
  | zero =>
    have write := linearly.write
    obtain ⟨left, after, released, fewer, extends_, ascending, stay, -⟩ := release_linear
      (fun _ => true) (fun _ always => always) linearly.inside (by omega)
      linearly.valid linearly.ascending linearly.ordered
      (fun _ member _ written => linearly.held_below member written)
    have none : (held slots left : List α) = [] := by
      apply List.eq_nil_iff_forall_not_mem.mpr
      intro entry member
      cases stay entry member
    have inside := linearly.inside
    have empty : left = 0 := by
      rw [← length_held (α := α) (show left ≤ slots.size by omega), none, List.length_nil]
    have writes := extends_.write
    rw [List.length_drop, length_held inside] at writes
    have start : after.write = 0 := by omega
    refine ⟨⟨after.entries, slots, true⟩, ?_, rfl⟩
    simp only [Ordered.scan, released, bind, Except.bind, require, start, beq_self_eq_true, if_true,
      ascending]
    rfl
  | succ position ih =>
    obtain ⟨current, left, after, read, released, free, next⟩ := linearly.read sortable distinct
      within (room _ (List.drop_suffix _ _))
    obtain ⟨result, scanned, linear⟩ := ih next (Nat.le_of_lt within) (by simpa using room)
    refine ⟨result, ?_, linear⟩
    simp only [Ordered.scan, read, released, bind, Except.bind, if_neg (Nat.ne_of_lt free),
      readAt_eq_ok free, writeAt_eq_ok free]
    exact scanned

end Linearly

/-- At the start of a scan nothing has been read. -/
theorem Linearly.start (entries : Array α) (slots : Array σ) :
    Linearly (entries.toList.map key) entries.size slots 0 ⟨entries, entries.size, true⟩ := by
  have nothing : (⟨entries, entries.size, true⟩ : Output α).written = [] :=
    List.drop_eq_nil_of_le (by simp)
  have all : (entries.toList.map key).drop entries.size = [] := List.drop_eq_nil_of_le (by simp)
  refine ⟨⟨Nat.zero_le _, rfl, Output.valid_start entries, by simp, ?_⟩, rfl, ?_⟩
  · rw [all]
    rfl
  · intro other member
    rw [nothing] at member
    cases member

/-- The reorder is linear, and its entries ascend, if the keys are different and sortable and there
is a slot for each of the minima of any rest of them. -/
theorem reorder_linear [LawfulParking α σ] {entries : Array α} {slots : Array σ}
    (distinct : (entries.toList.map key).Nodup) (sortable : Sortable (entries.toList.map key))
    (room : ∀ rest, rest <:+ entries.toList.map key → (minima rest).length ≤ slots.size) :
    ∃ result, reorder entries slots = .ok result ∧ result.linear = true ∧
      Ascending result.entries.toList := by
  obtain ⟨result, scanned, linear⟩ :=
    (Linearly.start entries slots).scan sortByKey sortable distinct (by simp) room
  obtain ⟨same, sorted, sorts⟩ := reorder_sorts entries slots
  obtain rfl := Except.ok.inj (sorted.symm.trans scanned)
  exact ⟨same, sorted, linear,
    sorts.ordered.ascending ((sorts.perm.map key).nodup_iff.mpr distinct)⟩

end BehaviorTree.Ordered
