import BehaviorTree.Action
import BehaviorTree.Atom
import BehaviorTree.Capacities
import BehaviorTree.Fault
import BehaviorTree.Log

namespace BehaviorTree

/-- Why a stream of atoms is no shape. -/
inductive ShapeError where
  | noAtoms
  | tooManyAtoms (count : Nat)
  | tooManyFunctions (count : Nat)
  | rootSpan (stop count : Nat)
  | unknownFunction (atom function : Nat)
  | slotOutOfOrder (atom slot next : Nat)
  | childless (atom : Nat)
  | pastEnd (atom stop count : Nat)
  | outsideParent (atom stop parentStop : Nat)
  /-- Nothing was built at all. -/
  | emptyConstruction
  deriving DecidableEq, Repr

/-- What has been seen of a stream: the stops of the open deciders, innermost first, the atoms that
own the slots, and the counts of the other resources. -/
structure Survey where
  stops : List Nat := []
  slotAtoms : Array Nat := #[]
  continuations : Nat := 0
  outstanding : Nat := 0
  frames : Nat := 0
  requests : Nat := 0
  deriving DecidableEq, Repr

namespace Survey

/-- The deciders that end at or before an index are no longer open there. -/
def close (survey : Survey) (index : Nat) : Survey :=
  { survey with stops := survey.stops.dropWhile fun stop => decide (stop ≤ index) }

/-- A decider opens if it has a child and ends within the stream and within its parent. -/
def openDecider (survey : Survey) (size index : Nat) (rule : Rule) (stop : Nat) :
    Except ShapeError Survey :=
  if stop ≤ index + 1 then .error (.childless index)
  else if size < stop then .error (.pastEnd index stop size)
  else
    let opened : Survey :=
      { survey with
        stops := stop :: survey.stops
        frames := max survey.frames (survey.stops.length + 1)
        continuations := survey.continuations + if rule = .sequence then 1 else 0 }
    match survey.stops with
    | parentStop :: _ =>
        if parentStop < stop then .error (.outsideParent index stop parentStop) else .ok opened
    | [] => .ok opened

/-- The survey of one more atom. -/
def visit (size functions index : Nat) (survey : Survey) (atom : Atom) :
    Except ShapeError Survey :=
  let survey := survey.close index
  match atom with
  | .immediate function =>
      if function < functions then .ok { survey with outstanding := survey.outstanding + 1 }
      else .error (.unknownFunction index function)
  | .deferred _ _ =>
      .ok { survey with
        outstanding := survey.outstanding + 1
        requests := survey.requests + 1 }
  | .persistent slot =>
      if slot = survey.slotAtoms.size then
        .ok { survey with
          slotAtoms := survey.slotAtoms.push index
          outstanding := survey.outstanding + 1 }
      else .error (.slotOutOfOrder index slot survey.slotAtoms.size)
  | .decider rule stop => survey.openDecider size index rule stop

/-- The survey of the atoms from an index on. -/
def walk (size functions : Nat) : Nat → List Atom → Survey → Except ShapeError Survey
  | _, [], survey => .ok survey
  | index, atom :: atoms, survey => do
      walk size functions (index + 1) atoms (← survey.visit size functions index atom)

/-- Atom indices have 32 bits, and the largest one is not used. -/
def atomLimit : Nat := Word.bound32 - 1

/-- Function indices have 16 bits. -/
def functionLimit : Nat := Word.bound16

/-- The index just past the subtree of the first atom. -/
def rootStop (atoms : Array Atom) : Nat := (atoms[0]?.bind Atom.stop?).getD 1

/-- The survey of a whole stream, if it is accepted: the subtrees nest as those of one tree, every
decider has a child, every function exists and the persistent actions are numbered in order. -/
def ofAtoms (atoms : Array Atom) (functions : Nat) : Except ShapeError Survey :=
  if atoms.isEmpty then .error .noAtoms
  else if atomLimit ≤ atoms.size then .error (.tooManyAtoms atoms.size)
  else if functionLimit < functions then .error (.tooManyFunctions functions)
  else if rootStop atoms ≠ atoms.size then .error (.rootSpan (rootStop atoms) atoms.size)
  else walk atoms.size functions 0 atoms.toList {}

end Survey

/-- An accepted stream of atoms with the functions that its immediate actions call. -/
structure Shape (β : Type) where
  atoms : Array Atom
  functions : Array (Action β)
  survey : Survey
  accepted : Survey.ofAtoms atoms functions.size = .ok survey

namespace Shape
variable {β : Type}

/-- The shape of a stream, or why there is none. -/
def ofAtoms (atoms : Array Atom) (functions : Array (Action β)) : Except ShapeError (Shape β) :=
  match accepted : Survey.ofAtoms atoms functions.size with
  | .ok survey => .ok ⟨atoms, functions, survey, accepted⟩
  | .error error => .error error

def size (shape : Shape β) : Nat := shape.atoms.size

def atom? (shape : Shape β) (index : Nat) : Option Atom := shape.atoms[index]?

def function? (shape : Shape β) (index : Nat) : Option (Action β) := shape.functions[index]?

/-- The atoms that own the slots of persistent actions, in ascending order. -/
def slotAtoms (shape : Shape β) : Array Nat := shape.survey.slotAtoms

/-- The capacities that a traversal of the shape needs. -/
def needs (shape : Shape β) : Capacities where
  atoms := shape.size
  slots := shape.slotAtoms.size
  continuations := shape.survey.continuations
  outstanding := shape.survey.outstanding
  slotChanges := shape.slotAtoms.size
  frames := shape.survey.frames
  requests := shape.survey.requests

/-- What is reported when a shape is accepted. -/
def acceptance (shape : Shape β) : LogEvent :=
  .shapeAccepted shape.size shape.functions.size shape.needs.frames

end Shape

end BehaviorTree
