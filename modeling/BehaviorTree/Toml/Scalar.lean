import BehaviorTree.Text.Digits
import BehaviorTree.Toml

namespace BehaviorTree.Toml.Scalar

/-! ## Digits -/

/-- Digits of a base, between which single underscores may stand; they are left out. -/
def digits (base : Nat) : List Char → List Char × List Char
  | [] => ([], [])
  | '_' :: digit :: input =>
      if (Text.digitValue? base digit).isSome then
        let (found, rest) := digits base input
        (digit :: found, rest)
      else ([], '_' :: digit :: input)
  | digit :: input =>
      if (Text.digitValue? base digit).isSome then
        let (found, rest) := digits base input
        (digit :: found, rest)
      else ([], digit :: input)

/-- Digits that do not start with an underscore, of which there must be one. -/
def someDigits? (base : Nat) : List Char → Option (List Char × List Char)
  | [] => none
  | digit :: input =>
      if (Text.digitValue? base digit).isSome then
        let (found, rest) := digits base input
        some (digit :: found, rest)
      else none

/-- A sign, if there is one. -/
def sign : List Char → List Char × List Char
  | '+' :: input => (['+'], input)
  | '-' :: input => (['-'], input)
  | input => ([], input)

/-- Decimal digits without leading zeros. -/
def whole? : List Char → Option (List Char × List Char)
  | '0' :: input => some (['0'], input)
  | input => someDigits? 10 input

/-! ## Integers -/

/-- Integers have 64 bits. -/
def inRange (value : Int) : Bool :=
  decide (-0x8000000000000000 ≤ value) && decide (value < 0x8000000000000000)

/-- An integer of 64 bits. -/
def bounded? (value : Int) (rest : List Char) : Option (Toml × List Char) :=
  if inRange value then some (.integer value, rest) else none

/-- An integer in a base, behind its prefix. -/
def based? (base : Nat) (input : List Char) : Option (Toml × List Char) := do
  let (found, rest) ← someDigits? base input
  bounded? (Text.valueOf base found) rest

def integer? : List Char → Option (Toml × List Char)
  | '0' :: 'x' :: input => based? 16 input
  | '0' :: 'o' :: input => based? 8 input
  | '0' :: 'b' :: input => based? 2 input
  | input => do
      let (sign, input) := sign input
      let (found, rest) ← whole? input
      let value : Int := Text.valueOf 10 found
      bounded? (if sign = ['-'] then -value else value) rest

/-! ## Numbers with a fraction or an exponent -/

/-- A decimal number of the given digits, with the point moved by an exponent, reaches the end of
the range of doubles: it is rounded to infinity. -/
def overflows (digits : List Char) (exponent : Int) : Bool :=
  let value := Text.valueOf 10 digits
  let limit := Nat.pow 2 1024 - Nat.pow 2 970
  let order := (Nat.toDigits 10 value).length + exponent
  if value = 0 ∨ order < 300 then false
  else if 320 < order then true
  else if 0 ≤ exponent then decide (limit ≤ value * Nat.pow 10 exponent.toNat)
  else decide (limit * Nat.pow 10 (-exponent).toNat ≤ value)

/-- A fraction behind its point. -/
def fraction? : List Char → Option (List Char × List Char)
  | '.' :: input => someDigits? 10 input
  | _ => none

/-- An exponent with its sign. -/
def exponent? : List Char → Option (Int × List Char)
  | mark :: input =>
      if mark = 'e' ∨ mark = 'E' then do
        let (sign, input) := sign input
        let (found, rest) ← someDigits? 10 input
        let value : Int := Text.valueOf 10 found
        return (if sign = ['-'] then -value else value, rest)
      else none
  | [] => none

/-- A number is refused if it is rounded to positive infinity. -/
def finite? (sign whole fraction : List Char) (exponent : Int) (rest : List Char) :
    Option (Toml × List Char) :=
  let digits := whole ++ fraction
  if sign ≠ ['-'] ∧ overflows digits (exponent - fraction.length) then none
  else some (.float (sign ++ digits), rest)

/-- A whole part, and a fraction or an exponent or both. -/
def decimal? (input : List Char) : Option (Toml × List Char) := do
  let (sign, input) := sign input
  let (whole, input) ← whole? input
  match fraction? input with
  | some (fraction, input) =>
      match exponent? input with
      | some (exponent, rest) => finite? sign whole fraction exponent rest
      | none => finite? sign whole fraction 0 input
  | none => do
      let (exponent, rest) ← exponent? input
      finite? sign whole [] exponent rest

/-- The names of infinity and of what is no number. -/
def special? (input : List Char) : Option (Toml × List Char) :=
  let (sign, input) := sign input
  match input with
  | 'i' :: 'n' :: 'f' :: rest => some (.float (sign ++ ['i', 'n', 'f']), rest)
  | 'n' :: 'a' :: 'n' :: rest => some (.float (sign ++ ['n', 'a', 'n']), rest)
  | _ => none

/-! ## Moments -/

/-- A number of exactly so many digits, between two bounds. -/
def field? (length least greatest : Nat) (input : List Char) : Option (Nat × List Char) :=
  let found := input.take length
  let value := Text.valueOf 10 found
  if found.length = length ∧ found.all Char.isDigit ∧ least ≤ value ∧ value ≤ greatest then
    some (value, input.drop length)
  else none

/-- A fixed character. -/
def mark? (mark : Char) : List Char → Option (List Char)
  | char :: input => if char = mark then some input else none
  | [] => none

/-- The number of days of a month. -/
def daysIn (year month : Nat) : Nat :=
  if month = 2 then
    if year % 4 = 0 ∧ (year % 100 ≠ 0 ∨ year % 400 = 0) then 29 else 28
  else if month = 4 ∨ month = 6 ∨ month = 9 ∨ month = 11 then 30
  else 31

/-- The rest behind a date. -/
def date? (input : List Char) : Option (List Char) := do
  let (year, input) ← field? 4 0 9999 input
  let (month, input) ← field? 2 1 12 (← mark? '-' input)
  let (_, rest) ← field? 2 1 (daysIn year month) (← mark? '-' input)
  return rest

/-- The rest behind the fraction of a second, if there is one. -/
def secondFraction (input : List Char) : List Char :=
  match input with
  | '.' :: digit :: rest =>
      if digit.isDigit then rest.dropWhile Char.isDigit else input
  | _ => input

/-- The rest behind a time of day; a leap second is allowed. -/
def time? (input : List Char) : Option (List Char) := do
  let (_, input) ← field? 2 0 23 input
  let (_, input) ← field? 2 0 59 (← mark? ':' input)
  let (_, rest) ← field? 2 0 60 (← mark? ':' input)
  return secondFraction rest

/-- The rest behind an offset from universal time, if there is one. -/
def offset (input : List Char) : List Char :=
  let numeric (behindSign : List Char) : List Char :=
    let found : Option (List Char) := do
      let (_, hours) ← field? 2 0 23 behindSign
      let (_, rest) ← field? 2 0 59 (← mark? ':' hours)
      return rest
    found.getD input
  match input with
  | 'Z' :: rest => rest
  | 'z' :: rest => rest
  | '+' :: rest => numeric rest
  | '-' :: rest => numeric rest
  | _ => input

/-- The rest behind a time of day and its offset, which follow a date. -/
def timeOfDate (input : List Char) : List Char :=
  match input with
  | delimiter :: rest =>
      if delimiter = 'T' ∨ delimiter = 't' ∨ delimiter = ' ' then
        match time? rest with
        | some rest => offset rest
        | none => input
      else input
  | [] => input

/-- A date, with or without a time of day, or a time of day alone. -/
def moment? (input : List Char) : Option (Toml × List Char) := do
  let rest ← match date? input with
    | some rest => some (timeOfDate rest)
    | none => time? input
  return (.moment (input.take (input.length - rest.length)), rest)

/-! ## All scalars but strings -/

def truth? : List Char → Option (Toml × List Char)
  | 't' :: 'r' :: 'u' :: 'e' :: rest => some (.bool true, rest)
  | 'f' :: 'a' :: 'l' :: 's' :: 'e' :: rest => some (.bool false, rest)
  | _ => none

/-- The first reading that fits. -/
def read (input : List Char) : Option (Toml × List Char) :=
  (truth? input).orElse fun _ =>
  (moment? input).orElse fun _ =>
  (decimal? input).orElse fun _ =>
  (special? input).orElse fun _ =>
  integer? input

end BehaviorTree.Toml.Scalar
