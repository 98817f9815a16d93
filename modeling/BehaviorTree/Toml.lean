namespace BehaviorTree

/-- How a table came about. -/
inductive TomlOrigin where
  /-- It is written in braces, and complete. -/
  | closed
  /-- It lies on the path of a dotted key. -/
  | dotted
  /-- It lies on the path of a header. -/
  | ancestor
  /-- A header names it. -/
  | header
  deriving DecidableEq, Repr

/-- A TOML value. Numbers with a fraction and moments in time are kept as they are written. -/
inductive Toml where
  | text (value : String)
  | integer (value : Int)
  | float (written : List Char)
  | bool (value : Bool)
  | moment (written : List Char)
  | array (items : List Toml)
  | table (origin : TomlOrigin) (entries : List (String × Toml))
  /-- The tables that headers in double brackets add one by one. -/
  | tables (elements : List (List (String × Toml)))

namespace Toml

/-- The entries of a table, in the order of their appearance. -/
abbrev Entries := List (String × Toml)

/-- The value under a key. -/
def Entries.find? (entries : Entries) (key : String) : Option Toml := entries.lookup key

/-- The value under a key is made or changed; the change may be refused. -/
def Entries.alter? (key : String) (change : Option Toml → Option Toml) :
    Entries → Option Entries
  | [] => do return [(key, ← change none)]
  | (name, value) :: entries =>
      if name = key then do return (key, ← change (some value)) :: entries
      else do return (name, value) :: (← alter? key change entries)

/-- The last of several is changed. -/
def alterLast? {α : Type} (change : α → Option α) : List α → Option (List α)
  | [] => none
  | [last] => do return [← change last]
  | first :: rest => do return first :: (← alterLast? change rest)

/-- What may be done on the way to a table: who goes there makes missing tables and passes through
those of certain origins. -/
structure Approach where
  made : TomlOrigin
  passes : TomlOrigin → Bool

/-- Headers pass through every table that is not closed. -/
def Approach.header : Approach := ⟨.ancestor, fun origin => origin != .closed⟩

/-- Dotted keys pass only through tables that no header has named. -/
def Approach.dotted : Approach :=
  ⟨.dotted, fun origin => origin == .dotted || origin == .ancestor⟩

/-- The table at the end of a path is changed; of several tables under one key the last one
counts. -/
def alterAt? (approach : Approach) (change : TomlOrigin → Entries → Option Entries) :
    List String → TomlOrigin → Entries → Option Entries
  | [], origin, entries => change origin entries
  | key :: path, _, entries => Entries.alter? key (fun
      | none => do
          return .table approach.made (← alterAt? approach change path approach.made [])
      | some (.table origin inner) =>
          if approach.passes origin then do
            return .table origin (← alterAt? approach change path origin inner)
          else none
      | some (.tables elements) => do
          return .tables (← alterLast? (alterAt? approach change path .header) elements)
      | some _ => none) entries

/-- A new entry under a dotted key. A table that the path does not make itself must not be added
to. -/
def insert? (path : List String) (key : String) (value : Toml) :
    TomlOrigin → Entries → Option Entries :=
  alterAt? .dotted (fun origin entries =>
    if path ≠ [] ∧ origin ≠ .dotted then none
    else Entries.alter? key (fun
      | none => some value
      | some _ => none) entries) path

/-- A header names a table, once. -/
def declare? (path : List String) (key : String) (root : Entries) : Option Entries :=
  alterAt? .header (fun _ => Entries.alter? key fun
    | none => some (.table .header [])
    | some (.table .ancestor inner) => some (.table .header inner)
    | some _ => none) path .header root

/-- A header adds a table to those under one key. -/
def append? (path : List String) (key : String) (root : Entries) : Option Entries :=
  alterAt? .header (fun _ => Entries.alter? key fun
    | none => some (.tables [[]])
    | some (.tables elements) => some (.tables (elements ++ [[]]))
    | some _ => none) path .header root

end Toml

end BehaviorTree
