namespace BehaviorTree.Text

/-- The value of a hexadecimal digit, in either case. -/
def hexValue? (digit : Char) : Option Nat :=
  if '0' ≤ digit ∧ digit ≤ '9' then some (digit.toNat - '0'.toNat)
  else if 'a' ≤ digit ∧ digit ≤ 'f' then some (digit.toNat - 'a'.toNat + 10)
  else if 'A' ≤ digit ∧ digit ≤ 'F' then some (digit.toNat - 'A'.toNat + 10)
  else none

/-- The value of a digit in a base up to sixteen. -/
def digitValue? (base : Nat) (digit : Char) : Option Nat :=
  (hexValue? digit).filter (· < base)

/-- The number that digits stand for, most significant first; other characters count as zero. -/
def valueOf (base : Nat) (digits : List Char) : Nat :=
  digits.foldl (fun total digit => base * total + (hexValue? digit).getD 0) 0

/-- The character at a code point; surrogates are none. -/
def scalar? (code : Nat) : Option Char :=
  if code.isValidChar then some (Char.ofNat code) else none

/-- The first of the two code units of a character beyond the basic plane. -/
def isHighSurrogate (unit : Nat) : Bool := decide (0xD800 ≤ unit) && decide (unit < 0xDC00)

/-- The second of the two code units. -/
def isLowSurrogate (unit : Nat) : Bool := decide (0xDC00 ≤ unit) && decide (unit < 0xE000)

/-- The code point that two code units stand for. -/
def surrogatePair (high low : Nat) : Nat := 0x10000 + 0x400 * (high - 0xD800) + (low - 0xDC00)

end BehaviorTree.Text
