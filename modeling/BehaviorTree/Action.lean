import BehaviorTree.Status

namespace BehaviorTree

/-- The state of a random stream. -/
abbrev Seed := UInt64

namespace Seed

/-- The counter moves by an odd stride, so it visits every word before it repeats. -/
def advance (seed : Seed) : Seed := seed + 0x9e3779b97f4a7c15

/-- The scrambling alternates shifts that are folded in and odd factors. -/
def scramble (word : UInt64) : UInt64 :=
  let word := (word ^^^ (word >>> 30)) * 0xbf58476d1ce4e5b9
  let word := (word ^^^ (word >>> 27)) * 0x94d049bb133111eb
  word ^^^ (word >>> 31)

/-- A draw advances the seed and delivers the scrambled new seed. -/
def draw (seed : Seed) : UInt64 × Seed := (scramble seed.advance, seed.advance)

/-- The values of the first draws, in order, and the seed that they leave. -/
def draws : Nat → Seed → List UInt64 × Seed
  | 0, seed => ([], seed)
  | count + 1, seed =>
      let (value, seed) := draw seed
      let (values, seed) := draws count seed
      (value :: values, seed)

end Seed

/-- A time in the format of IEEE 754 doubles, handed to the actions as it came. -/
structure Time where
  bits : UInt64
  deriving DecidableEq, Repr, Inhabited

namespace Time

def zero : Time := ⟨0⟩

/-- The comparison of IEEE 754: with a value that is no number it is false. -/
def reached (now threshold : Time) : Bool :=
  decide (Float.ofBits threshold.bits ≤ Float.ofBits now.bits)

end Time

/-- What a call of an immediate action leaves behind. -/
structure Reply (β : Type) where
  status : Status
  board : β
  seed : Seed

/-- An immediate action receives the blackboard, the seed, the time and the requested status. -/
abbrev Action (β : Type) := β → Seed → Time → Status → Reply β

end BehaviorTree
