import BehaviorTree.Fault
import BehaviorTree.Text.Digits

/-!
Basic strings have escapes and literal strings have none; each comes on one line, in single
delimiters, or on several lines, in triple ones.
-/

namespace BehaviorTree.Toml.Quoted

/-! ## Characters -/

def isBlank (char : Char) : Bool := char == ' ' || char == '\t'

/-- Control characters are those of ASCII; a tab is none here. -/
def isControl (char : Char) : Bool := decide (char < ' ') && char != '\t' || char == '\x7f'

/-- The character that a short escape stands for. -/
def escape? : Char → Option Char
  | 'b' => some '\x08'
  | 't' => some '\t'
  | 'n' => some '\n'
  | 'f' => some '\x0c'
  | 'r' => some '\r'
  | '"' => some '"'
  | '\\' => some '\\'
  | _ => none

/-- How many digits an escape with a code point has. -/
def codeLength? : Char → Option Nat
  | 'u' => some 4
  | 'U' => some 8
  | _ => none

/-! ## Reading -/

/-- The first character is put in front of the text that is read behind it. -/
def prepend (char : Char) (outcome : Option (List Char × List Char)) :
    Option (List Char × List Char) :=
  outcome.map fun (found, rest) => (char :: found, rest)

/-- Where in a basic string the reading is. -/
inductive Mode where
  /-- In the text, behind a number of quotation marks in a row. -/
  | text (marks : Nat)
  /-- Behind a backslash. -/
  | escaped
  /-- Before the last digits of a code point, behind those with the given value. -/
  | code (left value : Nat)
  /-- Behind a backslash and blanks, which the end of the line must follow. -/
  | lineEnd
  /-- Behind a backslash and the end of its line, where blanks and further ends are passed over. -/
  | trimming
  deriving DecidableEq, Repr

/-- The text up to the closing mark of a basic string on one line. -/
def basic : Mode → List Char → Option (List Char × List Char)
  | _, [] => none
  | .text _, char :: input =>
      if char = '"' then some ([], input)
      else if char = '\\' then basic .escaped input
      else if isControl char then none
      else prepend char (basic (.text 0) input)
  | .escaped, char :: input =>
      match codeLength? char, escape? char with
      | some length, _ => basic (.code length 0) input
      | none, some value => prepend value (basic (.text 0) input)
      | none, none => none
  | .code left value, char :: input =>
      match Text.hexValue? char with
      | none => none
      | some digit =>
          if left ≤ 1 then
            match Text.scalar? (16 * value + digit) with
            | some scalar => prepend scalar (basic (.text 0) input)
            | none => none
          else basic (.code (left - 1) (16 * value + digit)) input
  | .lineEnd, _ :: _ => none
  | .trimming, _ :: _ => none

/-- The text up to the closing mark of a literal string on one line. -/
def literal : List Char → Option (List Char × List Char)
  | [] => none
  | char :: input =>
      if char = '\'' then some ([], input)
      else if isControl char then none
      else prepend char (literal input)

/-- The end of a string behind a number of marks in a row: three of them close it, and those before
are text. -/
def closing (mark : Char) (marks : Nat) (rest : List Char) : Option (List Char × List Char) :=
  if marks < 3 then none else some (List.replicate (marks - 3) mark, rest)

/-- The marks that turn out to be text are put in front of it. -/
def prependMarks (mark : Char) (marks : Nat) (outcome : Option (List Char × List Char)) :
    Option (List Char × List Char) :=
  outcome.map fun (found, rest) => (List.replicate marks mark ++ found, rest)

/-- The text up to the closing marks of a basic string on several lines. -/
def basicLines : Mode → List Char → Option (List Char × List Char)
  | .text marks, [] => closing '"' marks []
  | _, [] => none
  | .text marks, char :: input =>
      if char = '"' then
        if marks < 5 then basicLines (.text (marks + 1)) input
        else closing '"' marks (char :: input)
      else if 3 ≤ marks then closing '"' marks (char :: input)
      else prependMarks '"' marks <|
        if char = '\\' then basicLines .escaped input
        else if char = '\n' then prepend '\n' (basicLines (.text 0) input)
        else if char = '\r' then
          match input with
          | '\n' :: input => prepend '\n' (basicLines (.text 0) input)
          | _ => none
        else if isControl char then none
        else prepend char (basicLines (.text 0) input)
  | .escaped, char :: input =>
      if isBlank char then basicLines .lineEnd input
      else if char = '\n' then basicLines .trimming input
      else if char = '\r' then
        match input with
        | '\n' :: input => basicLines .trimming input
        | _ => none
      else
        match codeLength? char, escape? char with
        | some length, _ => basicLines (.code length 0) input
        | none, some value => prepend value (basicLines (.text 0) input)
        | none, none => none
  | .code left value, char :: input =>
      match Text.hexValue? char with
      | none => none
      | some digit =>
          if left ≤ 1 then
            match Text.scalar? (16 * value + digit) with
            | some scalar => prepend scalar (basicLines (.text 0) input)
            | none => none
          else basicLines (.code (left - 1) (16 * value + digit)) input
  | .lineEnd, char :: input =>
      if isBlank char then basicLines .lineEnd input
      else if char = '\n' then basicLines .trimming input
      else if char = '\r' then
        match input with
        | '\n' :: input => basicLines .trimming input
        | _ => none
      else none
  | .trimming, char :: input =>
      if isBlank char || char == '\n' then basicLines .trimming input
      else if char = '\r' then
        match input with
        | '\n' :: input => basicLines .trimming input
        | _ => none
      else if char = '"' then basicLines (.text 1) input
      else if char = '\\' then basicLines .escaped input
      else if isControl char then none
      else prepend char (basicLines (.text 0) input)

/-- The text up to the closing marks of a literal string on several lines. -/
def literalLines : Nat → List Char → Option (List Char × List Char)
  | marks, [] => closing '\'' marks []
  | marks, char :: input =>
      if char = '\'' then
        if marks < 5 then literalLines (marks + 1) input
        else closing '\'' marks (char :: input)
      else if 3 ≤ marks then closing '\'' marks (char :: input)
      else prependMarks '\'' marks <|
        if char = '\n' then prepend '\n' (literalLines 0 input)
        else if char = '\r' then
          match input with
          | '\n' :: input => prepend '\n' (literalLines 0 input)
          | _ => none
        else if isControl char then none
        else prepend char (literalLines 0 input)

/-- The end of a line right behind an opening delimiter is no text. -/
def skipFirstEnd : List Char → List Char
  | '\n' :: input => input
  | '\r' :: '\n' :: input => input
  | input => input

/-- A string in any of the four forms, which its first marks tell apart. -/
def read : List Char → Option (List Char × List Char)
  | '"' :: '"' :: '"' :: input => basicLines (.text 0) (skipFirstEnd input)
  | '"' :: input => basic (.text 0) input
  | '\'' :: '\'' :: '\'' :: input => literalLines 0 (skipFirstEnd input)
  | '\'' :: input => literal input
  | _ => none

/-! ## Writing -/

/-- The length of the longest run of a mark, given that of the run at hand and the longest so
far. -/
def longestRun (mark : Char) : Nat → Nat → List Char → Nat
  | _, longest, [] => longest
  | current, longest, char :: rest =>
      if char = mark then longestRun mark (current + 1) (max longest (current + 1)) rest
      else longestRun mark 0 longest rest

/-- An upper-case hexadecimal digit. -/
def hexDigit (value : Nat) : Char :=
  if value < 10 then Char.ofNat ('0'.toNat + value) else Char.ofNat ('A'.toNat + (value - 10))

/-- The escape of a control character or of a backslash; other characters have none. -/
def escapeOf? (char : Char) : Option (List Char) :=
  if char = '\x08' then some ['\\', 'b']
  else if char = '\t' then some ['\\', 't']
  else if char = '\n' then some ['\\', 'n']
  else if char = '\x0c' then some ['\\', 'f']
  else if char = '\r' then some ['\\', 'r']
  else if char = '\\' then some ['\\', '\\']
  else if isControl char then
    some ['\\', 'u', '0', '0', hexDigit (char.toNat / 16), hexDigit (char.toNat % 16)]
  else none

/-- The text of a basic string on one line. -/
def writeBasic : List Char → List Char
  | [] => []
  | char :: rest =>
      (if char = '"' then ['\\', '"'] else (escapeOf? char).getD [char]) ++ writeBasic rest

/-- The text of a basic string on several lines, behind a number of quotation marks in a row: the
third one in a row is escaped. -/
def writeBasicLines : Nat → List Char → List Char
  | _, [] => []
  | marks, char :: rest =>
      if char = '"' then
        if marks < 2 then '"' :: writeBasicLines (marks + 1) rest
        else '\\' :: '"' :: writeBasicLines 0 rest
      else if char = '\n' then '\n' :: writeBasicLines 0 rest
      else (escapeOf? char).getD [char] ++ writeBasicLines 0 rest

/-- The form in which a text is written. -/
inductive Form where
  | basic
  | literal
  | basicLines
  | literalLines
  deriving DecidableEq, Repr

/-- A control character other than the end of a line can only be escaped. -/
def needsCodes (text : List Char) : Bool := text.any fun char => char != '\n' && isControl char

/-- The first form that shows the text without escapes, if there is one. -/
def formOf (text : List Char) : Form :=
  let codes := needsCodes text
  let backslash := text.contains '\\'
  let lines := text.contains '\n'
  let double := longestRun '"' 0 0 text
  let single := longestRun '\'' 0 0 text
  if !codes && !backslash && double == 0 && !lines then .basic
  else if !codes && single == 0 && !lines then .literal
  else if !codes && !backslash && decide (double ≤ 2) then .basicLines
  else if !codes && decide (single ≤ 2) then .literalLines
  else if lines then .basicLines
  else .basic

/-- A form with several lines begins with an end of line if the text has one. -/
def firstEnd (text : List Char) : List Char := if text.contains '\n' then ['\n'] else []

/-- A text in a given form. -/
def writeIn (form : Form) (text : List Char) : List Char :=
  match form with
  | .basic => ['"'] ++ writeBasic text ++ ['"']
  | .literal => ['\''] ++ text ++ ['\'']
  | .basicLines =>
      ['"', '"', '"'] ++ firstEnd text ++ writeBasicLines 0 text ++ ['"', '"', '"']
  | .literalLines => ['\'', '\'', '\''] ++ firstEnd text ++ text ++ ['\'', '\'', '\'']

/-- The lengths of the runs of either mark, which decide the form, are counted in 8 bits. -/
def isCountable (text : List Char) : Bool :=
  decide (longestRun '"' 0 0 text < Word.bound8) && decide (longestRun '\'' 0 0 text < Word.bound8)

/-- A text as a string, in the form that suits it. -/
def write (text : List Char) : Checked (List Char) := do
  require (isCountable text) .markRunTooLong
  return writeIn (formOf text) text

end BehaviorTree.Toml.Quoted
