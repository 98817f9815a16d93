import Mathlib.Data.List.Basic
import BehaviorTree.Toml.Scalar

namespace BehaviorTree.Toml.Scalar

/-! ## Digits -/

theorem hexValue?_of_isDigit {digit : Char} (isDigit : digit.isDigit = true) :
    Text.hexValue? digit = some (digit.toNat - '0'.toNat) ∧ digit.toNat - '0'.toNat < 10 := by
  simp only [Char.isDigit, Bool.and_eq_true, decide_eq_true_eq] at isDigit
  obtain ⟨above, below⟩ := isDigit
  refine ⟨if_pos ⟨above, below⟩, ?_⟩
  have bound : digit.toNat ≤ 57 := UInt32.le_iff_toNat_le.mp below
  change digit.toNat - 48 < 10
  omega

theorem digitValue?_of_isDigit {digit : Char} (isDigit : digit.isDigit = true) :
    (Text.digitValue? 10 digit).isSome = true := by
  obtain ⟨value, small⟩ := hexValue?_of_isDigit isDigit
  simpa [Text.digitValue?, value] using small

/-- Decimal digits have the value that they are usually given. -/
theorem valueOf_eq {digits : List Char} (decimal : ∀ digit ∈ digits, digit.isDigit = true) :
    Text.valueOf 10 digits = Nat.ofDigitChars 10 digits 0 := by
  rw [Text.valueOf, Nat.ofDigitChars_eq_foldl]
  refine List.foldl_ext _ _ 0 fun total digit member => ?_
  rw [(hexValue?_of_isDigit (decimal digit member)).1]
  rfl

theorem digits_cons {digit : Char} (isDigit : digit.isDigit = true) (input : List Char) :
    digits 10 (digit :: input) = (digit :: (digits 10 input).1, (digits 10 input).2) := by
  have counts := digitValue?_of_isDigit isDigit
  rw [digits.eq_def]
  split
  · next same => cases same
  · next same =>
    obtain ⟨rfl, -⟩ := List.cons.inj same
    exact absurd isDigit (by decide)
  · next same =>
    obtain ⟨rfl, rfl⟩ := List.cons.inj same
    rw [if_pos counts]

/-- The digits of a line are read to its end. -/
theorem digits_line {found : List Char} (decimal : ∀ digit ∈ found, digit.isDigit = true)
    (rest : List Char) : digits 10 (found ++ '\n' :: rest) = (found, '\n' :: rest) := by
  induction found with
  | nil => rfl
  | cons digit found ih =>
    rw [List.cons_append, digits_cons (decimal digit List.mem_cons_self),
      ih fun other member => decimal other (List.mem_cons_of_mem digit member)]

/-- A field of a moment takes digits from the line alone. -/
theorem field?_line {length least greatest value : Nat} {written rest behind : List Char}
    (read : field? length least greatest (written ++ '\n' :: rest) = some (value, behind)) :
    behind = written.drop length ++ '\n' :: rest := by
  simp only [field?] at read
  split at read
  · next valid =>
    obtain ⟨-, decimal, -⟩ := valid
    obtain rfl := (Prod.mk.inj (Option.some.inj read)).2
    refine List.drop_append_of_le_length ?_
    by_contra more
    have ends : '\n' ∈ (written ++ '\n' :: rest).take length := by
      rw [List.take_append, List.mem_append, show length - written.length =
        length - written.length - 1 + 1 by omega, List.take_succ_cons]
      exact .inr List.mem_cons_self
    exact absurd (List.all_eq_true.mp decimal _ ends) (by decide)
  · cases read

/-! ## Numerals -/

/-- Digits that are read as a whole number: a zero comes first only if it is alone. -/
structure Numeral (written : List Char) : Prop where
  decimal : ∀ digit ∈ written, digit.isDigit = true
  begins : ∃ first others, written = first :: others ∧ (first = '0' → others = [])

/-- Only zero has a leading zero. -/
theorem toDigits_head {value : Nat} (positive : 0 < value) :
    (Nat.toDigits 10 value).head? ≠ some '0' := by
  induction value using Nat.strongRecOn with
  | ind value ih =>
    by_cases small : value < 10
    · rw [Nat.toDigits_of_lt_base small]
      intro zero
      have := Nat.digitChar_eq_zero.mp (Option.some.inj zero)
      omega
    · have front := ih (value / 10) (by omega) (by omega)
      rw [Nat.toDigits_of_base_le (by decide) (by omega), List.head?_append]
      cases written : Nat.toDigits 10 (value / 10) with
      | nil => exact absurd written Nat.toDigits_ne_nil
      | cons first others => rwa [written] at front

theorem numeral_toDigits (value : Nat) : Numeral (Nat.toDigits 10 value) := by
  refine ⟨fun digit => Nat.isDigit_of_mem_toDigits (by decide) (by decide), ?_⟩
  rcases Nat.eq_zero_or_pos value with rfl | positive
  · exact ⟨'0', [], rfl, fun _ => rfl⟩
  · have head := toDigits_head positive
    cases written : Nat.toDigits 10 value with
    | nil => exact absurd written Nat.toDigits_ne_nil
    | cons first others =>
      rw [written] at head
      exact ⟨first, others, rfl, fun zero => absurd (congrArg some zero) head⟩

namespace Numeral
variable {written : List Char} (numeral : Numeral written) (rest : List Char)
include numeral

theorem whole?_line : whole? (written ++ '\n' :: rest) = some (written, '\n' :: rest) := by
  obtain ⟨first, others, rfl, alone⟩ := numeral.begins
  have isDigit := numeral.decimal first List.mem_cons_self
  have behind : ∀ digit ∈ others, digit.isDigit = true := fun digit member =>
    numeral.decimal digit (List.mem_cons_of_mem first member)
  by_cases zero : first = '0'
  · obtain rfl := zero
    rw [alone rfl]
    rfl
  · have some_digits : whole? (first :: (others ++ '\n' :: rest)) =
        someDigits? 10 (first :: (others ++ '\n' :: rest)) := by
      unfold whole?
      split <;> simp_all
    rw [List.cons_append, some_digits, someDigits?, if_pos (digitValue?_of_isDigit isDigit),
      digits_line behind]

/-- What is not a digit does not stand in front of a number. -/
theorem head_ne (char : Char) (other : char.isDigit = false) :
    (written ++ '\n' :: rest).head? ≠ some char := by
  obtain ⟨first, others, rfl, -⟩ := numeral.begins
  have isDigit := numeral.decimal first List.mem_cons_self
  intro same
  obtain rfl : first = char := Option.some.inj same
  rw [isDigit] at other
  cases other

theorem sign_line : sign (written ++ '\n' :: rest) = ([], written ++ '\n' :: rest) := by
  have noPlus := numeral.head_ne rest '+' (by decide)
  have noMinus := numeral.head_ne rest '-' (by decide)
  unfold sign
  split <;> simp_all

/-! ### What a number is not -/

theorem truth?_line : truth? (written ++ '\n' :: rest) = none := by
  have noTrue := numeral.head_ne rest 't' (by decide)
  have noFalse := numeral.head_ne rest 'f' (by decide)
  unfold truth?
  split <;> simp_all

theorem special?_line : special? (written ++ '\n' :: rest) = none := by
  have noInfinity := numeral.head_ne rest 'i' (by decide)
  have noName := numeral.head_ne rest 'n' (by decide)
  rw [special?, numeral.sign_line]
  dsimp only
  split <;> simp_all

theorem decimal?_line : decimal? (written ++ '\n' :: rest) = none := by
  simp only [decimal?, numeral.sign_line, numeral.whole?_line]
  rfl

/-- No mark follows a field that is taken from a number. -/
theorem mark?_line {mark : Char} (noDigit : mark.isDigit = false) (noEnd : mark ≠ '\n')
    (length : Nat) : mark? mark (written.drop length ++ '\n' :: rest) = none := by
  cases left : written.drop length with
  | nil => exact if_neg (Ne.symm noEnd)
  | cons digit others =>
    have member : digit ∈ written := List.mem_of_mem_drop (left ▸ List.mem_cons_self)
    refine if_neg fun same => ?_
    rw [same] at member
    exact absurd (numeral.decimal mark member) (by simp [noDigit])

theorem moment?_line : moment? (written ++ '\n' :: rest) = none := by
  have date : date? (written ++ '\n' :: rest) = none := by
    unfold date?
    cases read : field? 4 0 9999 (written ++ '\n' :: rest) with
    | none => rfl
    | some found =>
      obtain ⟨year, behind⟩ := found
      obtain rfl := field?_line read
      simp only [Option.bind_eq_bind, Option.bind_some,
        numeral.mark?_line rest (show '-'.isDigit = false by decide) (by decide)]
      rfl
  have time : time? (written ++ '\n' :: rest) = none := by
    unfold time?
    cases read : field? 2 0 23 (written ++ '\n' :: rest) with
    | none => rfl
    | some found =>
      obtain ⟨hour, behind⟩ := found
      obtain rfl := field?_line read
      simp only [Option.bind_eq_bind, Option.bind_some,
        numeral.mark?_line rest (show ':'.isDigit = false by decide) (by decide)]
      rfl
  simp only [moment?, date, time]
  rfl

/-! ### What a number is -/

/-- A zero is not the beginning of a prefix. -/
theorem no_prefix {mark : Char} (noEnd : mark ≠ '\n') (input : List Char) :
    written ++ '\n' :: rest ≠ '0' :: mark :: input := by
  obtain ⟨first, others, rfl, alone⟩ := numeral.begins
  intro same
  obtain ⟨zero, behind⟩ := List.cons.inj same
  rw [alone zero] at behind
  exact noEnd (List.cons.inj behind).1.symm

theorem integer?_line : integer? (written ++ '\n' :: rest) =
    bounded? (Text.valueOf 10 written) ('\n' :: rest) := by
  rw [integer?]
  · -- Step by step: the kernel would unfold the bounds if it compared both sides as a whole.
    rw [numeral.sign_line]
    dsimp only
    rw [numeral.whole?_line, Option.bind_eq_bind, Option.bind_some,
      if_neg (List.cons_ne_nil _ _).symm]
  all_goals
    intro input same
    exact numeral.no_prefix rest (by decide) _ same

end Numeral

/-- A number of 63 bits is read as the integer that it is. -/
theorem read_toDigits {value : Nat} (small : value < 0x8000000000000000) (rest : List Char) :
    read (Nat.toDigits 10 value ++ '\n' :: rest) = some (.integer value, '\n' :: rest) := by
  have numeral := numeral_toDigits value
  have range : inRange value = true := by
    rw [inRange, Bool.and_eq_true, decide_eq_true_eq, decide_eq_true_eq]
    omega
  rw [read, numeral.truth?_line, numeral.moment?_line, numeral.decimal?_line,
    numeral.special?_line, numeral.integer?_line, valueOf_eq numeral.decimal,
    Nat.ofDigitChars_toDigits (by decide) (by decide), bounded?, if_pos range]
  rfl

end BehaviorTree.Toml.Scalar
