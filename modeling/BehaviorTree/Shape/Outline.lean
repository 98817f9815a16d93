import BehaviorTree.Shape.Builder

namespace BehaviorTree.Outline

/-- A decimal number. -/
def number? (digits : List Char) : Option Nat :=
  if digits ≠ [] ∧ digits.all Char.isDigit then some (Nat.ofDigitChars 10 digits 0) else none

/-- The two numbers on the sides of the first mark. -/
def pair? (mark : Char) (text : List Char) : Option (Nat × Nat) :=
  match text.dropWhile (· ≠ mark) with
  | _ :: second => do
      return (← number? (text.takeWhile (· ≠ mark)), ← number? second)
  | [] => none

/-- The call that a word stands for. -/
def call? : List Char → Option (BuildCall Nat)
  | ['p'] => some .persistent
  | 'i' :: digits => return .immediate (← number? digits)
  | '@' :: digits => return .immediateAt (← number? digits)
  | 'd' :: numbers => do
      let (action, resource) ← pair? ':' numbers
      return .deferred action resource
  | 'r' :: numbers =>
      match number? numbers with
      | some function => some (.register function 1)
      | none => do
          let (function, times) ← pair? '*' numbers
          return .register function times
  | _ => none

/-- The rule of the decider that a word opens. -/
def opening? : List Char → Option Rule
  | ['S', '('] => some .sequence
  | ['P', '('] => some .dynamicPriority
  | ['C', '('] => some .concurrent
  | _ => none

/-- The calls read so far, latest first: those of the innermost open decider, and for each open
decider its rule with the calls before it. -/
structure Draft where
  inner : List (BuildCall Nat) := []
  outer : List (Rule × List (BuildCall Nat)) := []

/-- The innermost open decider is closed, if there is one. -/
def Draft.close (draft : Draft) : Draft :=
  match draft.outer with
  | (rule, before) :: outer => ⟨.decider rule draft.inner.reverse :: before, outer⟩
  | [] => draft

/-- One more word is read. -/
def Draft.word? (draft : Draft) (word : List Char) : Option Draft :=
  if word = [')'] then some draft.close
  else
    match opening? word with
    | some rule => some ⟨[], (rule, draft.inner) :: draft.outer⟩
    | none => do return { draft with inner := (← call? word) :: draft.inner }

/-- All open deciders are closed. -/
def Draft.calls (draft : Draft) : List (BuildCall Nat) :=
  (draft.outer.foldl (fun inner (rule, before) => .decider rule inner.reverse :: before)
    draft.inner).reverse

/-- The words of a line, which blanks separate. -/
def words (line : List Char) : List (List Char) :=
  (line.splitOnP Char.isWhitespace).filter (· ≠ [])

/-- The construction that an outline describes. The words are separated by blanks.

* `S(`, `P(` and `C(` open a sequence, a dynamic priority or a concurrent decider, and `)` closes
  it; the end of the outline closes whatever is open.
* `i4` makes an immediate action that calls the function 4, `r4` only registers that function,
  `r4*9` registers it nine times, and `@2` makes an action that calls what was registered as number
  2.
* `d7:1` makes a deferred action for action 7 and resource 1, and `p` a persistent action. -/
def calls? (line : String) : Option (List (BuildCall Nat)) := do
  return (← (words line.toList).foldlM Draft.word? {}).calls

end BehaviorTree.Outline
