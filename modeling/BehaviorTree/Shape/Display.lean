import BehaviorTree.Shape

namespace BehaviorTree

def ShapeError.message : ShapeError → String
  | noAtoms => "shape has no atoms"
  | tooManyAtoms count => s!"shape has too many atoms ({count})"
  | tooManyFunctions count => s!"too many immediate actions ({count})"
  | rootSpan stop count => s!"root node spans {stop} atoms but the shape holds {count}"
  | unknownFunction atom function =>
      s!"immediate action at {atom} refers to unknown function {function}"
  | slotOutOfOrder atom slot next =>
      s!"persistent action at {atom} uses slot {slot} but slot {next} is next"
  | childless atom => s!"decider at {atom} has no children"
  | pastEnd atom stop count => s!"decider at {atom} ends at {stop} beyond the shape end {count}"
  | outsideParent atom stop parentStop =>
      s!"decider at {atom} ends at {stop} outside its parent ending at {parentStop}"
  | emptyConstruction => "cannot build an empty shape"

/-- A record with named fields. -/
private def recordText (name : String) (fields : List (String × String)) : String :=
  name ++ " \x7b " ++ ", ".intercalate (fields.map fun field => field.1 ++ ": " ++ field.2) ++
    " \x7d"

/-- A list in brackets. -/
private def bracketed (items : List String) : String := "[" ++ ", ".intercalate items ++ "]"

def Atom.display (atom : Atom) : String :=
  recordText atom.kind.name (atom.fields.map fun field => (field.1, toString field.2))

def Capacities.display (capacities : Capacities) : String :=
  recordText "ShapeSpecification"
    (Resource.all.map fun resource => (resource.name, toString (capacities.get resource)))

/-- The functions of a shape show only by their number. -/
def Shape.display {β : Type} (shape : Shape β) : String :=
  recordText "Shape"
    [("atoms", bracketed (shape.atoms.toList.map Atom.display)),
      ("persistent_state_shape_atom_indices",
        bracketed (shape.slotAtoms.toList.map fun index => toString index)),
      ("immediate_actions", toString shape.functions.size),
      ("specification", shape.needs.display)]

end BehaviorTree
