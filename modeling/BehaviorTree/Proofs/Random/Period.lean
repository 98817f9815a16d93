import Mathlib.Data.Fintype.EquivFin
import Mathlib.Data.Int.GCD
import Mathlib.Data.Nat.ModEq
import Mathlib.Data.Nat.Prime.Basic
import BehaviorTree.Action

namespace BehaviorTree.Seed

/-- There are only so many words. -/
theorem finite_word : Finite UInt64 :=
  .of_injective UInt64.toFin fun _ _ => UInt64.toFin_inj.mp

/-- A product with an odd factor determines the other factor. -/
theorem mul_odd_injective (factor : UInt64) (odd : Odd factor.toNat) :
    Function.Injective fun word : UInt64 => word * factor := by
  intro first second same
  have product : first.toNat * factor.toNat ≡ second.toNat * factor.toNat [MOD 2 ^ 64] := by
    rw [Nat.ModEq, ← UInt64.toNat_mul, ← UInt64.toNat_mul]
    exact congrArg UInt64.toNat same
  have coprime : (2 ^ 64).gcd factor.toNat = 1 :=
    Nat.Coprime.pow_left 64 (Nat.coprime_two_left.mpr odd)
  have residue := Nat.ModEq.cancel_right_of_coprime coprime product
  exact UInt64.toNat_inj.mp (residue.eq_of_lt_of_lt first.toNat_lt second.toNat_lt)

/-- Only zero is not changed by a shift. -/
theorem eq_zero_of_shiftRight {word shift : UInt64} (moves : 0 < shift.toNat % 64)
    (fixed : word >>> shift = word) : word = 0 := by
  have halved := congrArg UInt64.toNat fixed
  rw [UInt64.toNat_shiftRight, Nat.shiftRight_eq_div_pow] at halved
  have zero : word.toNat = 0 := by
    by_contra positive
    have shrinks := Nat.div_lt_self (Nat.pos_of_ne_zero positive)
      (Nat.one_lt_two_pow (Nat.ne_of_gt moves))
    omega
  exact UInt64.toNat_inj.mp zero

/-- The difference of two words that become the same when a shift of them is folded in is its own
shift. -/
theorem fold_injective (shift : UInt64) (moves : 0 < shift.toNat % 64) :
    Function.Injective fun word : UInt64 => word ^^^ (word >>> shift) := by
  intro first second same
  have folded : first ^^^ (first >>> shift) = second ^^^ (second >>> shift) := same
  have fixed : (first ^^^ second) >>> shift ^^^ (first ^^^ second) = 0 := by
    calc (first ^^^ second) >>> shift ^^^ (first ^^^ second)
        = (first ^^^ (first >>> shift)) ^^^ (second ^^^ (second >>> shift)) := by
          rw [UInt64.shiftRight_xor]
          ac_rfl
      _ = 0 := by rw [folded, UInt64.xor_self]
  exact UInt64.xor_eq_zero_iff.mp
    (eq_zero_of_shiftRight moves (UInt64.xor_eq_zero_iff.mp fixed))

/-- The scrambling is undone step by step. -/
theorem scramble_injective : Function.Injective scramble := by
  intro first second same
  have last := fold_injective 31 (by decide) same
  have middle := fold_injective 27 (by decide) (mul_odd_injective _ (by decide) last)
  exact fold_injective 30 (by decide) (mul_odd_injective _ (by decide) middle)

theorem scramble_bijective : Function.Bijective scramble :=
  have := finite_word
  Finite.injective_iff_bijective.mp scramble_injective

theorem advance_bijective : Function.Bijective advance :=
  have := finite_word
  Finite.injective_iff_bijective.mp fun _ _ same => (UInt64.add_left_inj _).mp same

/-- After some steps the counter has moved by as many strides. -/
theorem iterate_advance (count : Nat) (seed : Seed) :
    advance^[count] seed = seed + UInt64.ofNat count * 0x9e3779b97f4a7c15 := by
  induction count with
  | zero => simp
  | succ count ih =>
    rw [Function.iterate_succ_apply', ih, advance, UInt64.ofNat_add, UInt64.add_mul,
      UInt64.add_assoc]
    rfl

/-- The counter comes back to a word only after it has visited all of them. -/
theorem iterate_advance_inj {first second : Nat} (first_lt : first < UInt64.size)
    (second_lt : second < UInt64.size) {seed : Seed}
    (same : advance^[first] seed = advance^[second] seed) : first = second := by
  rw [iterate_advance, iterate_advance, UInt64.add_right_inj] at same
  have counts := congrArg UInt64.toNat (mul_odd_injective _ (by decide) same)
  rwa [UInt64.toNat_ofNat_of_lt' first_lt, UInt64.toNat_ofNat_of_lt' second_lt] at counts

/-- The counter visits every word before it comes back to its start. -/
theorem exists_iterate_advance (seed word : Seed) :
    ∃ count < UInt64.size, advance^[count] seed = word := by
  have := finite_word
  have strides := Finite.injective_iff_surjective.mp
    (mul_odd_injective 0x9e3779b97f4a7c15 (by decide))
  obtain ⟨count, reached⟩ := strides (word - seed)
  refine ⟨count.toNat, count.toNat_lt, ?_⟩
  calc advance^[count.toNat] seed
      = seed + count * 0x9e3779b97f4a7c15 := by rw [iterate_advance, UInt64.ofNat_toNat]
    _ = seed + (word - seed) := congrArg (seed + ·) reached
    _ = word := by rw [UInt64.add_comm, UInt64.sub_add_cancel]

/-! ## Draws

The two sides of an equation about a draw are compared only after what is drawn is generalized, so
that nothing unfolds the arithmetic of the scrambling. -/

theorem fst_draw (seed : Seed) : (draw seed).1 = scramble seed.advance := by
  unfold draw
  generalize scramble seed.advance = word
  rfl

theorem snd_draw (seed : Seed) : (draw seed).2 = seed.advance := by
  unfold draw
  generalize scramble seed.advance = word
  rfl

/-- The first draw comes in front of the others. -/
theorem draws_succ (count : Nat) (seed : Seed) :
    draws (count + 1) seed =
      ((draw seed).1 :: (draws count (draw seed).2).1, (draws count (draw seed).2).2) := by
  rw [draws]

theorem snd_draws (count : Nat) (seed : Seed) : (draws count seed).2 = advance^[count] seed := by
  induction count generalizing seed with
  | zero => rfl
  | succ count ih => rw [draws_succ, Function.iterate_succ_apply, ← snd_draw, ← ih]

/-- The value of the draw that follows some others. -/
def value (earlier : Nat) (seed : Seed) : UInt64 := (draw (draws earlier seed).2).1

theorem value_eq (earlier : Nat) (seed : Seed) :
    value earlier seed = scramble (advance^[earlier] seed).advance := by
  rw [value, fst_draw, snd_draws]

/-- The draws deliver their values in order. -/
theorem fst_draws (count : Nat) (seed : Seed) :
    (draws count seed).1 = (List.range count).map fun earlier => value earlier seed := by
  induction count generalizing seed with
  | zero => rfl
  | succ count ih =>
    have later (earlier : Nat) : value earlier (draw seed).2 = value (earlier + 1) seed := by
      rw [value_eq, value_eq, snd_draw, Function.iterate_succ_apply]
    rw [draws_succ, List.range_succ_eq_map, List.map_cons, List.map_map]
    simp only [ih, later]
    rfl

theorem value_bijective (earlier : Nat) : Function.Bijective (value earlier) := by
  rw [funext (value_eq earlier)]
  exact scramble_bijective.comp (advance_bijective.comp (advance_bijective.iterate earlier))

/-- Before the counter comes back to its start, no draw repeats the value of another. -/
theorem nodup_draws (seed : Seed) : (draws UInt64.size seed).1.Nodup := by
  rw [fst_draws]
  refine List.nodup_range.map_on fun first first_mem second second_mem same => ?_
  rw [value_eq, value_eq] at same
  exact iterate_advance_inj (List.mem_range.mp first_mem) (List.mem_range.mp second_mem)
    (advance_bijective.injective (scramble_injective same))

/-- Before the counter comes back to its start, every word is drawn. -/
theorem mem_draws (seed : Seed) (word : UInt64) : word ∈ (draws UInt64.size seed).1 := by
  obtain ⟨reached, rfl⟩ := scramble_bijective.surjective word
  obtain ⟨before, rfl⟩ := advance_bijective.surjective reached
  obtain ⟨earlier, within, rfl⟩ := exists_iterate_advance seed before
  rw [fst_draws, ← value_eq]
  exact List.mem_map_of_mem (List.mem_range.mpr within)

/-- From any seed the stream delivers each word once, and then the seed is back at its start. The
value of each draw ranges over all words as the seed does. -/
theorem draws_permute (seed : Seed) :
    (draws UInt64.size seed).1.Nodup ∧
    (∀ word, (draws UInt64.size seed).1.count word = 1) ∧
    (draws UInt64.size seed).2 = seed ∧
    (∀ count, (draws count seed).1 = (List.range count).map fun earlier => value earlier seed) ∧
    ∀ earlier, Function.Bijective (value earlier) := by
  have distinct := nodup_draws seed
  have returns : advance^[UInt64.size] seed = seed := by
    rw [iterate_advance, UInt64.ofNat_size, UInt64.zero_mul, UInt64.add_zero]
  exact ⟨distinct, fun word => List.count_eq_one_of_mem distinct (mem_draws seed word),
    (snd_draws _ _).trans returns, fun count => fst_draws count seed, value_bijective⟩

end BehaviorTree.Seed
