import BehaviorTree.Text.Digits

namespace BehaviorTree

/-- A number is negative or not, and has a whole part; it may also have a fraction or an
exponent. -/
structure JsonNumber where
  negative : Bool
  whole : Nat
  /-- Neither a fraction nor an exponent is written. -/
  plain : Bool
  deriving DecidableEq, Repr

/-- The text of a string, which is missing if an escape names half of a surrogate pair alone. -/
abbrev JsonText := Option String

/-- A JSON value; the members of an object are kept as they stand. -/
inductive Json where
  | null
  | bool (value : Bool)
  | number (value : JsonNumber)
  | string (text : JsonText)
  | array (items : List Json)
  | object (members : List (JsonText × Json))

/-- What is wrong with a JSON text. -/
inductive JsonCause where
  | endOfList
  | endOfObject
  | endOfString
  | endOfValue
  | expectedColon
  | expectedListCommaOrEnd
  | expectedObjectCommaOrEnd
  | expectedIdent
  | expectedValue
  | invalidEscape
  | invalidNumber
  | controlCharacter
  | keyMustBeString
  | trailingComma
  | trailingCharacters
  | tooDeep
  deriving DecidableEq, Repr

namespace JsonCause

def message : JsonCause → String
  | endOfList => "EOF while parsing a list"
  | endOfObject => "EOF while parsing an object"
  | endOfString => "EOF while parsing a string"
  | endOfValue => "EOF while parsing a value"
  | expectedColon => "expected colon"
  | expectedListCommaOrEnd => "expected comma or end of list"
  | expectedObjectCommaOrEnd => "expected comma or end of object"
  | expectedIdent => "expected ident"
  | expectedValue => "expected value"
  | invalidEscape => "invalid escape"
  | invalidNumber => "invalid number"
  | controlCharacter => "control character found while parsing a string"
  | keyMustBeString => "key must be a string"
  | trailingComma => "trailing comma"
  | trailingCharacters => "trailing characters"
  | tooDeep => "recursion limit exceeded"

end JsonCause

/-- An error, with the line and the column, in bytes, up to which the text was read. -/
structure JsonError where
  cause : JsonCause
  line : Nat
  column : Nat
  deriving DecidableEq, Repr

def JsonError.message (error : JsonError) : String :=
  error.cause.message ++ s!" at line {error.line} column {error.column}"

namespace Json

/-- Where the reading stopped, and what is left of the text there. -/
structure Stop where
  cause : JsonCause
  rest : List Char

def isBlank (char : Char) : Bool := char == ' ' || char == '\t' || char == '\n' || char == '\r'

def skipBlanks (input : List Char) : List Char := input.dropWhile isBlank

/-- The fixed letters of a literal. -/
def readLiteral (value : Json) : List Char → List Char → Except Stop (Json × List Char)
  | [], input => .ok (value, input)
  | _ :: _, [] => .error ⟨.endOfValue, []⟩
  | letter :: letters, char :: input =>
      if char = letter then readLiteral value letters input else .error ⟨.expectedIdent, input⟩

/-! ## Numbers -/

/-- Digits, of which there must be one. -/
def readDigits (input : List Char) : Except Stop (List Char × List Char) :=
  match input.takeWhile Char.isDigit, input.dropWhile Char.isDigit with
  | [], [] => .error ⟨.endOfValue, []⟩
  | [], _ :: rest => .error ⟨.invalidNumber, rest⟩
  | found, rest => .ok (found, rest)

/-- A fraction, if there is one; the answer tells whether. -/
def readFraction : List Char → Except Stop (Bool × List Char)
  | '.' :: input => do return (true, (← readDigits input).2)
  | input => .ok (false, input)

/-- An exponent, if there is one; the answer tells whether. -/
def readExponent : List Char → Except Stop (Bool × List Char)
  | 'e' :: input => unsigned input
  | 'E' :: input => unsigned input
  | input => .ok (false, input)
where
  /-- The digits of an exponent, behind a sign or none. -/
  unsigned (input : List Char) : Except Stop (Bool × List Char) := do
    let input := match input with
      | '+' :: input => input
      | '-' :: input => input
      | input => input
    return (true, (← readDigits input).2)

/-- A number behind its sign: a whole part without leading zeros, a fraction and an exponent. -/
def readNumber (negative : Bool) (input : List Char) : Except Stop (Json × List Char) := do
  let (whole, rest) ← readDigits input
  match whole with
  | '0' :: _ :: _ => throw ⟨.invalidNumber, rest⟩
  | _ =>
    let (fractional, rest) ← readFraction rest
    let (exponential, rest) ← readExponent rest
    return (.number ⟨negative, Text.valueOf 10 whole, !fractional && !exponential⟩, rest)

/-! ## Strings -/

/-- A piece of a string: a character, or a code unit that an escape names. -/
inductive Piece where
  | char (value : Char)
  | unit (value : Nat)

/-- Where in a string the reading is. -/
inductive StringMode where
  | plain
  /-- Behind a backslash. -/
  | escaped
  /-- Before the last digits of an escape, behind those with the given value. -/
  | hex (left value : Nat)

/-- The character that a short escape stands for. -/
def escape? : Char → Option Char
  | '"' => some '"'
  | '\\' => some '\\'
  | '/' => some '/'
  | 'b' => some '\x08'
  | 'f' => some '\x0c'
  | 'n' => some '\n'
  | 'r' => some '\r'
  | 't' => some '\t'
  | _ => none

/-- The pieces up to the closing quotation mark. -/
def readPieces : StringMode → List Char → Except Stop (List Piece × List Char)
  | _, [] => .error ⟨.endOfString, []⟩
  | .plain, char :: input =>
      if char = '"' then .ok ([], input)
      else if char = '\\' then readPieces .escaped input
      else if char < ' ' then .error ⟨.controlCharacter, input⟩
      else do
        let (rest, input) ← readPieces .plain input
        return (.char char :: rest, input)
  | .escaped, char :: input =>
      if char = 'u' then readPieces (.hex 4 0) input
      else match escape? char with
        | none => .error ⟨.invalidEscape, input⟩
        | some value => do
            let (rest, input) ← readPieces .plain input
            return (.char value :: rest, input)
  | .hex left value, char :: input =>
      match Text.hexValue? char with
      | none => .error ⟨.invalidEscape, input⟩
      | some digit =>
          if left ≤ 1 then do
            let (rest, input) ← readPieces .plain input
            return (.unit (16 * value + digit) :: rest, input)
          else readPieces (.hex (left - 1) (16 * value + digit)) input

/-- The characters that pieces stand for, where surrogates come in pairs. -/
def characters? : List Piece → Option (List Char)
  | [] => some []
  | .char value :: rest => (characters? rest).map (value :: ·)
  | .unit high :: .unit low :: rest =>
      if Text.isHighSurrogate high then
        if Text.isLowSurrogate low then
          (characters? rest).map (Char.ofNat (Text.surrogatePair high low) :: ·)
        else none
      else do
        let char ← Text.scalar? high
        (characters? (.unit low :: rest)).map (char :: ·)
  | .unit value :: rest => do
      let char ← Text.scalar? value
      (characters? rest).map (char :: ·)

/-- A string behind its opening quotation mark. -/
def readString (input : List Char) : Except Stop (JsonText × List Char) := do
  let (found, rest) ← readPieces .plain input
  return ((characters? found).map String.ofList, rest)

/-! ## Values -/

mutual

/-- A value; the fuel bounds the depth and the number of items. -/
def readValue : Nat → List Char → Except Stop (Json × List Char)
  | 0, input => .error ⟨.tooDeep, input⟩
  | fuel + 1, input =>
      match skipBlanks input with
      | [] => .error ⟨.endOfValue, []⟩
      | 'n' :: rest => readLiteral .null ['u', 'l', 'l'] rest
      | 't' :: rest => readLiteral (.bool true) ['r', 'u', 'e'] rest
      | 'f' :: rest => readLiteral (.bool false) ['a', 'l', 's', 'e'] rest
      | '"' :: rest => do
          let (text, rest) ← readString rest
          return (.string text, rest)
      | '-' :: rest => readNumber true rest
      | '[' :: rest =>
          match skipBlanks rest with
          | [] => .error ⟨.endOfList, []⟩
          | ']' :: rest => .ok (.array [], rest)
          | rest => do
              let (found, rest) ← readItems fuel rest
              return (.array found, rest)
      | '\x7b' :: rest =>
          match skipBlanks rest with
          | [] => .error ⟨.endOfObject, []⟩
          | '\x7d' :: rest => .ok (.object [], rest)
          | rest => do
              let (found, rest) ← readMembers fuel rest
              return (.object found, rest)
      | char :: rest =>
          if char.isDigit then readNumber false (char :: rest) else .error ⟨.expectedValue, rest⟩

/-- The items of an array up to its end. -/
def readItems : Nat → List Char → Except Stop (List Json × List Char)
  | 0, input => .error ⟨.tooDeep, input⟩
  | fuel + 1, input => do
      let (first, rest) ← readValue fuel input
      match skipBlanks rest with
      | [] => throw ⟨.endOfList, []⟩
      | ']' :: rest => return ([first], rest)
      | ',' :: rest =>
          match skipBlanks rest with
          | ']' :: rest => throw ⟨.trailingComma, rest⟩
          | rest => do
              let (others, rest) ← readItems fuel rest
              return (first :: others, rest)
      | _ :: rest => throw ⟨.expectedListCommaOrEnd, rest⟩

/-- The members of an object up to its end. -/
def readMembers : Nat → List Char → Except Stop (List (JsonText × Json) × List Char)
  | 0, input => .error ⟨.tooDeep, input⟩
  | fuel + 1, input =>
      match input with
      | [] => .error ⟨.endOfValue, []⟩
      | '"' :: rest => do
          let (key, rest) ← readString rest
          match skipBlanks rest with
          | [] => throw ⟨.endOfObject, []⟩
          | ':' :: rest => do
              let (first, rest) ← readValue fuel rest
              match skipBlanks rest with
              | [] => throw ⟨.endOfObject, []⟩
              | '\x7d' :: rest => return ([(key, first)], rest)
              | ',' :: rest =>
                  match skipBlanks rest with
                  | '\x7d' :: rest => throw ⟨.trailingComma, rest⟩
                  | rest => do
                      let (others, rest) ← readMembers fuel rest
                      return ((key, first) :: others, rest)
              | _ :: rest => throw ⟨.expectedObjectCommaOrEnd, rest⟩
          | _ :: rest => throw ⟨.expectedColon, rest⟩
      | _ :: rest => .error ⟨.keyMustBeString, rest⟩

end

/-- The line and column of the end of a text. -/
def position (text : List Char) : Nat × Nat :=
  text.foldl (fun (line, column) char =>
    if char = '\n' then (line + 1, 0) else (line, column + char.utf8Size)) (1, 0)

/-- The error of a reading that stopped in a text. -/
def Stop.toError (stop : Stop) (text : List Char) : JsonError :=
  let (line, column) := position (text.take (text.length - stop.rest.length))
  ⟨stop.cause, line, column⟩

/-- The value that a text holds. Each step of the recursion follows at most one other that reads
nothing, so twice the length is fuel enough. -/
def ofText (text : String) : Except JsonError Json :=
  let input := text.toList
  let outcome : Except Stop Json := do
    let (found, rest) ← readValue (2 * input.length + 2) input
    match skipBlanks rest with
    | [] => return found
    | _ :: rest => throw ⟨.trailingCharacters, rest⟩
  outcome.mapError (·.toError input)

end Json

end BehaviorTree
