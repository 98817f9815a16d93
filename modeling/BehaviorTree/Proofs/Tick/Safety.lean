import BehaviorTree.Proofs.Simulation.Update

namespace BehaviorTree

namespace Tick
variable {β : Type} {tick middle after : Tick β} {setting : Setting β}

/-- A state is safe if no error has occurred in it, and if it takes a further step unless it is
done. -/
def Safe (tick : Tick β) (setting : Setting β) : Prop :=
  tick.machine.command ≠ .error ∧
    (tick.machine.command = .done ∨ ∃ next, tick.step setting = .ok next)

/-- On the way to an end without error all states are safe. -/
theorem Steps.safe {count other : Nat} (steps : Steps setting count tick after)
    (done : after.machine.command = .done) (others : Steps setting other tick middle) :
    other ≤ count ∧ middle.Safe setting := by
  obtain ⟨left, rest, total⟩ := (Path.of_steps steps).rest (by rw [done]; rfl) others
  refine ⟨by omega, ?_⟩
  cases rest with
  | refl =>
    refine ⟨?_, Or.inl done⟩
    rw [done]
    exact Command.noConfusion
  | cons _ active first _ =>
    refine ⟨?_, Or.inr ⟨_, first⟩⟩
    intro error
    rw [error] at active
    cases active

/-- Whatever a prepared traversal that comes to its end reaches is safe. -/
theorem Completes.safe {prepared : Except MachineError Machine} {result : Status}
    (completes : tick.Completes setting prepared result after) {machine : Machine}
    (ready : prepared = .ok machine) {count : Nat}
    (steps : Steps setting count { tick with machine } middle) :
    count ≤ stepBudget setting.shape ∧ middle.Safe setting := by
  obtain ⟨other, total, left, prepares, enough, all, done, -⟩ := completes
  obtain rfl := Except.ok.inj (ready.symm.trans prepares)
  obtain ⟨within, safe⟩ := all.safe done steps
  exact ⟨Nat.le_trans within enough, safe⟩

/-- Updates and cancellations of whatever fits come to their end, whatever the functions return.
All states on the way are safe, and the successor of every node that can be visited is a word. -/
theorem fit_completes (tick : Tick β) (setting : Setting β) (fit : tick.Fit setting) :
    (∃ result after,
      tick.Completes setting (tick.machine.prepareUpdate tick.actor setting.shape) result after ∧
      tick.update setting = .ok ⟨.ok result, after⟩) ∧
    (∃ after,
      tick.Completes setting (tick.machine.prepareCancel tick.actor setting.shape) .cancel after ∧
      tick.cancel setting = .ok ⟨.ok .cancel, after⟩) ∧
    (∀ machine, tick.machine.prepareUpdate tick.actor setting.shape = .ok machine ∨
        tick.machine.prepareCancel tick.actor setting.shape = .ok machine →
      ∀ count reached, Steps setting count { tick with machine } reached →
        count ≤ stepBudget setting.shape ∧ reached.Safe setting) ∧
    ∀ index, (setting.shape.atom? index).isSome → index + 1 < Word.bound32 := by
  obtain ⟨updated, updates, -⟩ := fit.update_performs
  obtain ⟨canceled, cancels, -⟩ := fit.cancel_performs
  refine ⟨⟨_, updated, updates, updates.complete_eq⟩,
    ⟨canceled, cancels, cancels.complete_eq⟩, ?_, ?_⟩
  · rintro machine (prepared | prepared) count reached steps
    · exact updates.safe prepared steps
    · exact cancels.safe prepared steps
  · intro index present
    have inside := (setting.shape.atom?_isSome_iff index).mp present
    have small := setting.shape.size_lt
    omega

end Tick

namespace Sample

/-- A function that counts its calls on the blackboard and runs until it is canceled. -/
def action : Action Nat := fun board seed _ requested =>
  ⟨if requested = .cancel then .cancel else .running, board + 1, seed⟩

/-- One action of each kind under a concurrent decider. -/
def shape : Shape Nat where
  atoms := #[.decider .concurrent 4, .immediate 0, .deferred 7 3, .persistent 0]
  functions := #[action]
  survey := ⟨[4], #[3], 0, 3, 1, 1⟩
  accepted := by decide

/-- Both the immediate and the deferred action are outstanding. -/
def actor : Actor where
  id := 5
  handle := 0
  seed := 0
  slots := #[.running]
  continuations := .empty 0 0
  outstanding := ⟨#[⟨1, .running⟩, ⟨2, .launch⟩], #[⟨3, .fail⟩]⟩

/-- The actor meets a machine that is made for the shape. -/
def tick : Tick Nat := { machine := .forShape shape, actor, board := 0 }

def setting : Setting Nat := { shape, time := .zero }

theorem fit : tick.Fit setting where
  sized := Machine.sized_new _
  covers := by decide
  supports := by decide
  ascending := by decide
  undecided := by decide

/-- The persistent action of the sample fails, so that the others are given up. -/
def failing : Tick Nat :=
  { machine := .forShape shape, actor := { actor with slots := #[.fail] }, board := 0 }

theorem fit_failing : failing.Fit setting where
  sized := Machine.sized_new _
  covers := by decide
  supports := by decide
  ascending := by decide
  undecided := by decide

end Sample

/-- The sample is updated and canceled without error. -/
theorem Tick.fit_completes_sample : Sample.tick.Fit Sample.setting ∧
    (∃ result after, Sample.tick.update Sample.setting = .ok ⟨.ok result, after⟩) ∧
    ∃ after, Sample.tick.cancel Sample.setting = .ok ⟨.ok .cancel, after⟩ := by
  obtain ⟨⟨result, updated, -, updates⟩, ⟨canceled, -, cancels⟩, -⟩ :=
    fit_completes Sample.tick Sample.setting Sample.fit
  exact ⟨Sample.fit, ⟨result, updated, updates⟩, canceled, cancels⟩

end BehaviorTree
