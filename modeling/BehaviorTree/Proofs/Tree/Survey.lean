import BehaviorTree.Ordered.Search
import BehaviorTree.Proofs.Tree.Basic
import Mathlib.Data.List.Basic
import Mathlib.Tactic.ByContra

namespace BehaviorTree

namespace Atom

def isSequence : Atom → Bool
  | decider .sequence _ => true
  | decider .dynamicPriority _ | decider .concurrent _ | immediate _ | deferred _ _
  | persistent _ => false

def isPersistent : Atom → Bool
  | persistent _ => true
  | immediate _ | deferred _ _ | decider _ _ => false

def isAction (atom : Atom) : Bool := !atom.isDecider

end Atom

namespace Survey
variable {size functions index : Nat} {atom : Atom} {atoms : List Atom} {survey after : Survey}

/-- The survey of a decider that has opened. -/
def opened (survey : Survey) (rule : Rule) (stop : Nat) : Survey :=
  { survey with
    stops := stop :: survey.stops
    frames := max survey.frames (survey.stops.length + 1)
    continuations := survey.continuations + if rule = .sequence then 1 else 0 }

/-- A decider that opens has a child, and it ends within the stream and within its parent. -/
theorem openDecider_ok {rule : Rule} {stop : Nat}
    (accepted : survey.openDecider size index rule stop = .ok after) :
    index + 1 < stop ∧ stop ≤ size ∧ (∀ parentStop ∈ survey.stops.head?, stop ≤ parentStop) ∧
      after = survey.opened rule stop := by
  by_cases childless : stop ≤ index + 1
  · simp [openDecider, childless] at accepted
  by_cases outside : size < stop
  · simp [openDecider, childless, outside] at accepted
  simp only [openDecider, if_neg childless, if_neg outside] at accepted
  refine ⟨by omega, by omega, ?_⟩
  cases stops : survey.stops with
  | nil =>
    simp only [stops] at accepted
    refine ⟨fun outerStop member => by simp at member, ?_⟩
    rw [← Except.ok.inj accepted, opened, stops]
  | cons parentStop outer =>
    simp only [stops] at accepted
    by_cases crossing : parentStop < stop
    · simp [crossing] at accepted
    · rw [if_neg crossing] at accepted
      refine ⟨fun outerStop member => ?_, ?_⟩
      · rw [List.head?_cons, Option.mem_some] at member
        omega
      · rw [← Except.ok.inj accepted, opened, stops]

/-- What the visit of an atom checks, and how it changes the survey. -/
inductive Visits (size functions index : Nat) (survey : Survey) : Atom → Survey → Prop where
  | immediate (function : Nat) (known : function < functions) :
      Visits size functions index survey (.immediate function)
        { survey.close index with outstanding := survey.outstanding + 1 }
  | deferred (action resource : Nat) :
      Visits size functions index survey (.deferred action resource)
        { survey.close index with
          outstanding := survey.outstanding + 1
          requests := survey.requests + 1 }
  | persistent :
      Visits size functions index survey (.persistent survey.slotAtoms.size)
        { survey.close index with
          slotAtoms := survey.slotAtoms.push index
          outstanding := survey.outstanding + 1 }
  | decider (rule : Rule) (stop : Nat) (child : index + 1 < stop) (inside : stop ≤ size)
      (nested : ∀ parentStop ∈ (survey.close index).stops.head?, stop ≤ parentStop) :
      Visits size functions index survey (.decider rule stop)
        ((survey.close index).opened rule stop)

theorem visits_of_visit (accepted : visit size functions index survey atom = .ok after) :
    Visits size functions index survey atom after := by
  cases atom with
  | immediate function =>
    simp only [visit] at accepted
    split at accepted
    · next known =>
      obtain rfl := Except.ok.inj accepted
      exact .immediate function known
    · cases accepted
  | deferred action resource =>
    obtain rfl := Except.ok.inj accepted
    exact .deferred action resource
  | persistent slot =>
    simp only [visit] at accepted
    split at accepted
    · next next =>
      obtain rfl := Except.ok.inj accepted
      have same : slot = survey.slotAtoms.size := next
      subst same
      exact .persistent
    · cases accepted
  | decider rule stop =>
    obtain ⟨child, inside, nested, rfl⟩ := openDecider_ok accepted
    exact .decider rule stop child inside nested

/-- The walk over a stream, atom by atom. -/
inductive Walks (size functions : Nat) : Nat → List Atom → Survey → Survey → Prop where
  | nil (index : Nat) (survey : Survey) : Walks size functions index [] survey survey
  | cons {index : Nat} {atom : Atom} {atoms : List Atom} {survey middle after : Survey}
      (visits : Visits size functions index survey atom middle)
      (rest : Walks size functions (index + 1) atoms middle after) :
      Walks size functions index (atom :: atoms) survey after

theorem walks_of_walk (accepted : walk size functions index atoms survey = .ok after) :
    Walks size functions index atoms survey after := by
  induction atoms generalizing index survey with
  | nil =>
    obtain rfl := Except.ok.inj accepted
    exact .nil index survey
  | cons atom atoms ih =>
    rw [walk] at accepted
    cases visited : visit size functions index survey atom with
    | error error =>
      rw [visited] at accepted
      cases accepted
    | ok middle =>
      rw [visited] at accepted
      exact .cons (visits_of_visit visited) (ih accepted)

namespace Walks

/-- The sequences, the actions and the deferred actions are counted. -/
theorem counts (walks : Walks size functions index atoms survey after) :
    after.continuations = survey.continuations + atoms.countP Atom.isSequence ∧
      after.outstanding = survey.outstanding + atoms.countP Atom.isAction ∧
      after.requests = survey.requests + atoms.countP Atom.isDeferred := by
  induction walks with
  | nil => exact ⟨rfl, rfl, rfl⟩
  | cons visits rest ih =>
    obtain ⟨continuations, outstanding, requests⟩ := ih
    rw [continuations, outstanding, requests]
    simp only [List.countP_cons]
    cases visits with
    | decider rule stop =>
      cases rule <;>
        (simp [Atom.isSequence, Atom.isAction, Atom.isDecider, Atom.kind, NodeKind.isDecider,
          Atom.isDeferred, opened, close]; try omega)
    | _ =>
      simp [Atom.isSequence, Atom.isAction, Atom.isDecider, Atom.kind, NodeKind.isDecider,
        Atom.isDeferred, close]
      try omega

/-- Every function exists. -/
theorem functions_known (walks : Walks size functions index atoms survey after) (function : Nat)
    (member : .immediate function ∈ atoms) : function < functions := by
  induction walks with
  | nil => cases member
  | cons visits rest ih =>
    rcases List.mem_cons.mp member with rfl | member
    · cases visits with
      | immediate _ known => exact known
    · exact ih member

/-- The atoms that own the slots are those of the persistent actions, in their order. -/
theorem slotAtoms (walks : Walks size functions index atoms survey after) :
    after.slotAtoms.toList = survey.slotAtoms.toList ++
      ((atoms.zipIdx index).filter fun entry => entry.1.isPersistent).map Prod.snd := by
  induction walks with
  | nil => simp
  | cons visits rest ih =>
    rw [ih]
    cases visits <;> simp [Atom.isPersistent, opened, close]

/-- A persistent action owns the slot of its number. -/
theorem slot_owned (walks : Walks size functions index atoms survey after) (offset slot : Nat)
    (persistent : atoms[offset]? = some (.persistent slot)) :
    after.slotAtoms[slot]? = some (index + offset) := by
  induction walks generalizing offset with
  | nil => simp at persistent
  | @cons index atom atoms survey middle after visits rest ih =>
    cases offset with
    | zero =>
      rw [List.getElem?_cons_zero, Option.some.injEq] at persistent
      subst persistent
      cases visits with
      | persistent =>
        have kept := rest.slotAtoms
        rw [← Array.getElem?_toList, kept]
        simp
    | succ offset =>
      rw [List.getElem?_cons_succ] at persistent
      rw [ih offset persistent, Nat.add_assoc, Nat.add_comm 1]

/-- Every decider has a child, and ends within the stream. -/
theorem has_child (walks : Walks size functions index atoms survey after) (offset : Nat)
    {rule : Rule} {stop : Nat} (decider : atoms[offset]? = some (.decider rule stop)) :
    index + offset + 1 < stop ∧ stop ≤ size := by
  induction walks generalizing offset with
  | nil => simp at decider
  | @cons index atom atoms survey middle after visits rest ih =>
    cases offset with
    | zero =>
      rw [List.getElem?_cons_zero, Option.some.injEq] at decider
      subst decider
      cases visits with
      | decider _ _ child inside => exact ⟨child, inside⟩
    | succ offset =>
      rw [List.getElem?_cons_succ] at decider
      have := ih offset decider
      omega

/-- The measured depth never falls. -/
theorem frames_le (walks : Walks size functions index atoms survey after) :
    survey.frames ≤ after.frames := by
  induction walks with
  | nil => exact Nat.le_refl _
  | cons visits rest ih =>
    refine Nat.le_trans ?_ ih
    cases visits with
    | decider => exact Nat.le_max_left _ _
    | _ => exact Nat.le_refl _

end Walks

end Survey

end BehaviorTree
