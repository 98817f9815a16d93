import BehaviorTree.Toml.Quoted
import BehaviorTree.Toml.Scalar

namespace BehaviorTree.Toml

/-- A statement of a document. -/
inductive Statement where
  /-- A value under a key, on a path of dotted keys. -/
  | entry (path : List String) (key : String) (value : Toml)
  /-- A header of a table. -/
  | header (path : List String) (key : String)
  /-- A header in double brackets. -/
  | appending (path : List String) (key : String)

/-- Keys with this many parts, and values nested this deep, are refused. -/
def depthLimit : Nat := 80

/-! ## Blanks and comments -/

def skipBlanks (input : List Char) : List Char := input.dropWhile Quoted.isBlank

/-- A comment holds no control characters. -/
def skipComment : List Char → List Char
  | '#' :: input => input.dropWhile fun char => !Quoted.isControl char
  | input => input

/-- The end of a line; the end of the document is one. -/
def lineEnd? : List Char → Option (List Char)
  | [] => some []
  | '\n' :: input => some input
  | '\r' :: '\n' :: input => some input
  | _ => none

/-- What may follow a statement on its line. -/
def trailing? (input : List Char) : Option (List Char) := lineEnd? (skipComment (skipBlanks input))

/-- Blanks, ends of lines and comments between the items of an array. -/
def skipBetween : Nat → List Char → List Char
  | 0, input => input
  | fuel + 1, input =>
      match input with
      | ' ' :: input => skipBetween fuel input
      | '\t' :: input => skipBetween fuel input
      | '\n' :: input => skipBetween fuel input
      | '\r' :: '\n' :: input => skipBetween fuel input
      | '#' :: input => skipBetween fuel (skipComment ('#' :: input))
      | input => input

/-- Each step passes a character, so the length is fuel enough. -/
def skipAll (input : List Char) : List Char := skipBetween input.length input

/-! ## Keys -/

def isBareKey (char : Char) : Bool := char.isAlphanum || char == '-' || char == '_'

/-- One part of a key: a string on one line, or bare letters, digits, dashes and underscores. -/
def simpleKey? : List Char → Option (String × List Char)
  | '"' :: input => (Quoted.basic (.text 0) input).map fun (key, rest) => (String.ofList key, rest)
  | '\'' :: input => (Quoted.literal input).map fun (key, rest) => (String.ofList key, rest)
  | input =>
      match input.takeWhile isBareKey with
      | [] => none
      | found => some (String.ofList found, input.dropWhile isBareKey)

/-- The parts of a key, with dots between them; the last part stands apart from the path to it. -/
def keyParts? : Nat → List Char → Option ((List String × String) × List Char)
  | 0, _ => none
  | room + 1, input => do
      let (first, rest) ← simpleKey? (skipBlanks input)
      match skipBlanks rest with
      | '.' :: rest => do
          let ((path, key), rest) ← keyParts? room rest
          return ((first :: path, key), rest)
      | rest => return (([], first), rest)

def key? (input : List Char) : Option ((List String × String) × List Char) :=
  keyParts? (depthLimit - 1) input

/-- What stands between a key and its value. -/
def equals? (input : List Char) : Option (List Char) :=
  (Scalar.mark? '=' input).map skipBlanks

/-! ## Values -/

/-- How a value is read. -/
abbrev ValueReader := List Char → Option (Toml × List Char)

/-- The items of an array up to its closing bracket; a comma may stand behind the last one. -/
def items? (item : ValueReader) : Nat → List Char → Option (List Toml × List Char)
  | 0, _ => none
  | fuel + 1, input =>
      match skipAll input with
      | ']' :: rest => some ([], rest)
      | input => do
          let (first, rest) ← item input
          match skipAll rest with
          | ']' :: rest => return ([first], rest)
          | ',' :: rest => do
              let (others, rest) ← items? item fuel rest
              return (first :: others, rest)
          | _ => none

/-- The entries of a table in braces up to its closing brace, put into the table one by one. -/
def inlineEntries? (item : ValueReader) : Nat → Entries → List Char →
    Option (Entries × List Char)
  | 0, _, _ => none
  | fuel + 1, entries, input => do
      let ((path, key), rest) ← key? input
      let (value, rest) ← item (← equals? rest)
      let entries ← insert? path key value .closed entries
      match skipBlanks rest with
      | '\x7d' :: rest => return (entries, rest)
      | ',' :: rest => inlineEntries? item fuel entries rest
      | _ => none

/-- A string as a value. -/
def quoted? : ValueReader := fun input =>
  (Quoted.read input).map fun (found, rest) => (.text (String.ofList found), rest)

/-- A value, with room for so many levels of arrays and tables in it. -/
def value? : Nat → ValueReader
  | _, '"' :: input => quoted? ('"' :: input)
  | _, '\'' :: input => quoted? ('\'' :: input)
  | 0, '[' :: _ => none
  | room + 1, '[' :: input =>
      (items? (value? room) (input.length + 1) input).map fun (found, rest) => (.array found, rest)
  | 0, '\x7b' :: _ => none
  | room + 1, '\x7b' :: input =>
      match skipBlanks input with
      | '\x7d' :: rest => some (.table .closed [], rest)
      | _ => (inlineEntries? (value? room) (input.length + 1) [] input).map fun (found, rest) =>
          (.table .closed found, rest)
  | _, input => Scalar.read input

/-! ## Statements -/

/-- An entry, to the end of its line. -/
def keyValue? (input : List Char) : Option (Statement × List Char) := do
  let ((path, key), rest) ← key? input
  let (value, rest) ← value? (depthLimit - 1) (← equals? rest)
  return (.entry path key value, ← trailing? rest)

/-- A header behind its brackets, to the end of its line. -/
def header? (input : List Char) : Option (Statement × List Char) := do
  let ((path, key), rest) ← key? input
  return (.header path key, ← trailing? (← Scalar.mark? ']' rest))

/-- A header behind its double brackets, to the end of its line. -/
def appending? (input : List Char) : Option (Statement × List Char) := do
  let ((path, key), rest) ← key? input
  return (.appending path key, ← trailing? (← Scalar.mark? ']' (← Scalar.mark? ']' rest)))

/-- The statements of a document. -/
def statements? : Nat → List Char → Option (List Statement)
  | 0, _ => none
  | fuel + 1, input => do
      let next (found : Option (Statement × List Char)) : Option (List Statement) := do
        let (first, rest) ← found
        return first :: (← statements? fuel rest)
      match skipBlanks input with
      | [] => return []
      | '#' :: rest => do statements? fuel (← lineEnd? (skipComment ('#' :: rest)))
      | '\n' :: rest => statements? fuel rest
      | '\r' :: rest => do statements? fuel (← Scalar.mark? '\n' rest)
      | '[' :: '[' :: rest => next (appending? rest)
      | '[' :: rest => next (header? rest)
      | input => next (keyValue? input)

/-! ## Documents -/

/-- A document while it is built: its table, and the path of the table that entries go to. -/
structure Draft where
  root : Entries := []
  current : List String := []

/-- One more statement takes effect. -/
def Draft.add? (draft : Draft) : Statement → Option Draft
  | .entry path key value => do
      let root ← alterAt? .header (insert? path key value) draft.current .header draft.root
      return { draft with root }
  | .header path key => do
      return ⟨← declare? path key draft.root, path ++ [key]⟩
  | .appending path key => do
      return ⟨← append? path key draft.root, path ++ [key]⟩

/-- A byte order mark in front of a document is passed over. -/
def skipByteOrderMark : List Char → List Char
  | '\ufeff' :: input => input
  | input => input

/-- The table that a document describes. Each statement ends a line or the document, so the length
is fuel enough. -/
def ofText? (text : List Char) : Option Entries := do
  let statements ← statements? (text.length + 1) (skipByteOrderMark text)
  return (← statements.foldlM Draft.add? {}).root

end BehaviorTree.Toml
