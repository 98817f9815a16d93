import BehaviorTree.Proofs.Simulation.Scanning
import BehaviorTree.Proofs.Simulation.Surrounding

namespace BehaviorTree
open Checked Ordered
variable {β : Type}

/-- A lookup of a tick, with what it returned. -/
inductive Lookup where
  /-- The status that the actor remembers of an action. -/
  | outstanding (atom : Nat) (found : Option Status)
  /-- The child that the actor remembers of a sequence. -/
  | continuation (atom : Nat) (found : Option Nat)
  /-- The slot that belongs to a persistent action. -/
  | slot (atom : Nat) (found : Option Nat)
  deriving DecidableEq, Repr

/-- The lookups that a visit of an atom takes, answered by searches of the whole arrays. -/
def Lookup.due (shape : Shape β) (actor : Actor) (atom : Nat) : List Lookup :=
  match shape.atom? atom with
  | some (.immediate _) | some (.deferred _ _) =>
      [.outstanding atom (actor.outstanding.find? atom)]
  | some (.persistent owned) =>
      [.outstanding atom (actor.outstanding.find? atom), .slot atom (some owned)]
  | some (.decider .sequence _) => [.continuation atom (actor.continuations.find? atom)]
  | some (.decider .dynamicPriority _) | some (.decider .concurrent _) | none => []

/-- A computation that keeps a record of its lookups. -/
abbrev Recording := StateT (List Lookup) Checked

namespace Recording
variable {α γ : Type}

/-- A lookup is noted with what it returns. -/
def note (outcome : Checked (α × Tick β)) (lookup : α → Lookup) : Recording (α × Tick β) :=
  fun record => do
    let read ← outcome
    return (read, record ++ [lookup read.1])

/-- Whatever a computation comes to, its recording comes to the same, and something holds of that
and of what is noted. -/
def Retells (recording : Recording α) (outcome : Checked α) (holds : α → List Lookup → Prop) :
    Prop :=
  outcome.Ensures fun value => ∃ noted, holds value noted ∧
    ∀ record, recording record = .ok (value, record ++ noted)

theorem retells_pure {value : α} {holds : α → List Lookup → Prop} (held : holds value []) :
    Retells (pure value) (pure value) holds :=
  ensures_pure.mpr ⟨[], held, fun record => by rw [List.append_nil]; rfl⟩

/-- What is not recorded notes nothing. -/
theorem retells_lift {outcome : Checked α} {ensured : α → Prop}
    (ensures : outcome.Ensures ensured) :
    Retells (liftM outcome) outcome fun value noted => ensured value ∧ noted = [] := by
  intro value same
  refine ⟨[], ⟨ensures value same, rfl⟩, fun record => ?_⟩
  rw [List.append_nil, same]
  rfl

theorem retells_note {read : α × Tick β} {outcome : Checked (α × Tick β)}
    (found : outcome = .ok read) (lookup : α → Lookup) :
    Retells (note outcome lookup) outcome fun value noted =>
      value = read ∧ noted = [lookup read.1] := by
  subst found
  exact ensures_ok.mpr ⟨_, ⟨rfl, rfl⟩, fun record => rfl⟩

namespace Retells

theorem bind {recording : Recording α} {outcome : Checked α} {next : α → Recording γ}
    {rest : α → Checked γ} {first : α → List Lookup → Prop} {holds : γ → List Lookup → Prop}
    (retells : Retells recording outcome first)
    (others : ∀ value noted, first value noted →
      Retells (next value) (rest value) fun result more => holds result (noted ++ more)) :
    Retells (recording >>= next) (outcome >>= rest) holds := by
  refine Ensures.bind retells fun value told => ?_
  obtain ⟨noted, held, recorded⟩ := told
  refine (others value noted held).mono fun result told => ?_
  obtain ⟨more, holds, continued⟩ := told
  refine ⟨noted ++ more, holds, fun record => ?_⟩
  have went : recording record >>= (fun reached => next reached.1 reached.2) =
      .ok (result, record ++ (noted ++ more)) := by
    rw [recorded, ok_bind, continued, List.append_assoc]
  exact went

theorem mono {recording : Recording α} {outcome : Checked α} {first holds : α → List Lookup → Prop}
    (retells : Retells recording outcome first)
    (implies : ∀ value noted, first value noted → holds value noted) :
    Retells recording outcome holds :=
  Ensures.mono retells fun value told => by
    obtain ⟨noted, held, recorded⟩ := told
    exact ⟨noted, implies value noted held, recorded⟩

/-- What the outcome ensures holds as well. -/
theorem also {recording : Recording α} {outcome : Checked α} {holds : α → List Lookup → Prop}
    {ensured : α → Prop} (retells : Retells recording outcome holds)
    (ensures : outcome.Ensures ensured) :
    Retells recording outcome fun value noted => ensured value ∧ holds value noted :=
  fun value same => by
    obtain ⟨noted, held, recorded⟩ := retells value same
    exact ⟨noted, ⟨ensures value same, held⟩, recorded⟩

end Retells

end Recording

namespace Tick
variable {tick after : Tick β} {setting : Setting β}
open Recording

/-- A recorded visit of an immediate action. -/
def recordImmediate (tick : Tick β) (setting : Setting β) (atom function : Nat) :
    Recording (Status × Tick β) := do
  let (previous, tick) ← note (tick.takeOutstanding atom) (.outstanding atom)
  tick.answerImmediate setting atom function previous

/-- A recorded visit of a deferred action. -/
def recordDeferred (tick : Tick β) (atom action resource : Nat) :
    Recording (Status × Tick β) := do
  let (previous, tick) ← note (tick.takeOutstanding atom) (.outstanding atom)
  tick.answerDeferred atom action resource previous

/-- A recorded visit of a persistent action. -/
def recordPersistent (tick : Tick β) (setting : Setting β) (atom slot : Nat) :
    Recording (Status × Tick β) := do
  let (_, tick) ← note (tick.takeOutstanding atom) (.outstanding atom)
  let (found, tick) ← note (tick.takeSlot setting atom) (.slot atom)
  tick.answerPersistent atom slot found

/-- A recorded choice of the child at which a decider goes on. -/
def recordResumption (tick : Tick β) (frame : Frame) : Recording (Nat × Frame × Tick β) := do
  let firstChild ← frame.firstChild
  match frame.progress with
  | .dynamicPriority | .concurrent _ => return (firstChild, frame, tick)
  | .sequence _ => do
    let (remembered, tick) ← note (tick.takeContinuation frame.atom) (.continuation frame.atom)
    return tick.resumeAt frame firstChild remembered

/-- A recorded entry of a decider. -/
def recordEntry (tick : Tick β) (setting : Setting β) (frame : Frame) : Recording (Tick β) := do
  if tick.machine.frames.isFull then return tick.overflow frame
  require (← frame.hasChildren) .childlessDecider
  let (start, frame, tick) ← tick.failing.recordResumption frame
  tick.openAt setting start frame

/-- A recorded visit of the atom at an index. -/
def recordVisit (tick : Tick β) (setting : Setting β) (index : Nat) : Atom → Recording (Tick β)
  | .immediate function => do
      let (result, tick) ← tick.recordImmediate setting index function
      return tick.deliver setting index result
  | .deferred action resource => do
      let (result, tick) ← tick.recordDeferred index action resource
      return tick.deliver setting index result
  | .persistent slot => do
      let (result, tick) ← tick.recordPersistent setting index slot
      return tick.deliver setting index result
  | .decider rule stop => tick.recordEntry setting (tick.frameFor index rule stop)

/-- A recorded visit of the atom under the cursor. -/
def recordInvoke (tick : Tick β) (setting : Setting β) : Recording (Tick β) :=
  let index := tick.machine.cursor
  match setting.shape.atom? index with
  | none => return (tick.log (.cursorPastEnd index setting.shape.size)).proceed .error
  | some atom => (tick.notify setting index (.enter ||| .fromTop)).recordVisit setting index atom

/-- A recorded step. Only visits look anything up. -/
def recordStep (tick : Tick β) (setting : Setting β) : Recording (Tick β) :=
  let machine := tick.machine
  let tick := tick.log (.stepStarted machine.command machine.cursor machine.status)
  match machine.command with
  | .invoke => tick.recordInvoke setting
  | .resume => tick.resume setting
  | .cleanup => tick.cleanup setting
  | .done | .error => return tick

/-- Recorded steps, until the command is terminal. -/
def recordRun (setting : Setting β) : Nat → Tick β → Recording (Tick β)
  | 0, tick => if tick.machine.command.isTerminal then return tick else throw .stepLimit
  | steps + 1, tick =>
      if tick.machine.command.isTerminal then return tick
      else do recordRun setting steps (← tick.recordStep setting)

/-- A recorded update. -/
def recordUpdate (tick : Tick β) (setting : Setting β) : Recording (Outcome β) :=
  match tick.machine.prepareUpdate tick.actor setting.shape with
  | .error error => return ⟨.error error, tick⟩
  | .ok machine => do
      let tick ← recordRun setting (stepBudget setting.shape) { tick with machine }
      tick.finish setting

theorem retells_immediate {atom : Nat} (ready : tick.scan.Ready setting.shape atom)
    (function : Nat) :
    Retells (tick.recordImmediate setting atom function)
      (tick.visitImmediate setting atom function) fun visit noted =>
        Seeks setting.shape (atom + 1) tick visit.2 ∧
          noted = [.outstanding atom (tick.actor.outstanding.find? atom)] := by
  obtain ⟨read, taken, -, seeks⟩ := takeOutstanding_find? ready (Nat.le_refl atom)
  refine (retells_note taken (.outstanding atom)).bind fun value noted found => ?_
  obtain ⟨rfl, rfl⟩ := found
  refine (retells_lift (read.scan_answerImmediate setting atom function _)).mono ?_
  rintro visit _ ⟨same, rfl⟩
  exact ⟨seeks.stay same, rfl⟩

theorem retells_deferred {atom : Nat} (ready : tick.scan.Ready setting.shape atom)
    (action resource : Nat) :
    Retells (tick.recordDeferred atom action resource)
      (tick.visitDeferred atom action resource) fun visit noted =>
        Seeks setting.shape (atom + 1) tick visit.2 ∧
          noted = [.outstanding atom (tick.actor.outstanding.find? atom)] := by
  obtain ⟨read, taken, -, seeks⟩ := takeOutstanding_find? ready (Nat.le_refl atom)
  refine (retells_note taken (.outstanding atom)).bind fun value noted found => ?_
  obtain ⟨rfl, rfl⟩ := found
  refine (retells_lift (read.scan_answerDeferred atom action resource _)).mono ?_
  rintro visit _ ⟨same, rfl⟩
  exact ⟨seeks.stay same, rfl⟩

theorem retells_persistent {atom slot : Nat} (ready : tick.scan.Ready setting.shape atom)
    (stands : setting.shape.atom? atom = some (.persistent slot)) :
    Retells (tick.recordPersistent setting atom slot)
      (tick.visitPersistent setting atom slot) fun visit noted =>
        Seeks setting.shape (atom + 1) tick visit.2 ∧
          noted = [.outstanding atom (tick.actor.outstanding.find? atom),
            .slot atom (some slot)] := by
  obtain ⟨read, taken, still, seeks⟩ := takeOutstanding_find? ready (Nat.le_refl atom)
  refine (retells_note taken (.outstanding atom)).bind fun value noted found => ?_
  obtain ⟨rfl, rfl⟩ := found
  have awaits : Awaits setting.shape.slotAtoms atom read.machine.slotCursor := still ▸ ready.slot
  obtain ⟨sought, owned, more⟩ := takeSlot_slot seeks.ready awaits stands
  refine (retells_note owned (.slot atom)).bind fun value noted found => ?_
  obtain ⟨rfl, rfl⟩ := found
  refine (retells_lift (sought.scan_answerPersistent atom slot _)).mono ?_
  rintro visit _ ⟨same, rfl⟩
  exact ⟨(seeks.trans more).stay same, rfl⟩

/-- A visit of an action looks up what is due. -/
theorem retells_leaf {index : Nat} {leaf : Leaf} (ready : tick.scan.Ready setting.shape index)
    (stands : setting.shape.atom? index = some leaf.atom) :
    Retells (tick.recordVisit setting index leaf.atom)
      (tick.visitAtom setting index leaf.atom) fun after noted =>
        Seeks setting.shape (index + 1) tick after ∧
          noted = Lookup.due setting.shape tick.actor index := by
  unfold Lookup.due
  rw [stands]
  cases leaf with
  | immediate function =>
    refine (retells_immediate ready function).bind fun visit noted visits => retells_pure ?_
    exact ⟨visits.1.stay (scan_deliver _ _ _ _), by rw [visits.2]; rfl⟩
  | deferred action resource =>
    refine (retells_deferred ready action resource).bind fun visit noted visits => retells_pure ?_
    exact ⟨visits.1.stay (scan_deliver _ _ _ _), by rw [visits.2]; rfl⟩
  | persistent slot =>
    refine (retells_persistent ready stands).bind fun visit noted visits => retells_pure ?_
    exact ⟨visits.1.stay (scan_deliver _ _ _ _), by rw [visits.2]; rfl⟩

/-- To choose its first child, only a sequence looks anything up. -/
theorem retells_resumption (tick : Tick β) {frame : Frame}
    (ready : tick.scan.Ready setting.shape frame.atom) :
    Retells (tick.recordResumption frame) (tick.resumption frame) fun resumed noted =>
      Seeks setting.shape (frame.atom + 1) tick resumed.2.2 ∧
        noted = if frame.progress.rule = .sequence then
          [.continuation frame.atom (tick.actor.continuations.find? frame.atom)] else [] := by
  have passes : Seeks setting.shape (frame.atom + 1) tick tick :=
    .of_same (ready.later (Nat.le_succ _)) rfl
  refine (retells_lift (ensures_true _)).bind fun firstChild noted first => ?_
  obtain ⟨-, rfl⟩ := first
  cases progress : frame.progress with
  | dynamicPriority | concurrent => exact retells_pure ⟨passes, rfl⟩
  | sequence reached =>
    obtain ⟨read, taken, seeks⟩ := takeContinuation_find? ready (Nat.le_refl frame.atom)
    refine (retells_note taken (.continuation frame.atom)).bind fun value noted found => ?_
    obtain ⟨rfl, rfl⟩ := found
    exact retells_pure ⟨seeks.stay (read.scan_resumeAt frame firstChild _), rfl⟩

/-- Unless there is no room for its frame, a decider is entered with the lookups that are due. -/
theorem retells_entry {index stop : Nat} {rule : Rule}
    (ready : tick.scan.Ready setting.shape index)
    (stands : setting.shape.atom? index = some (.decider rule stop)) :
    Retells (tick.recordEntry setting (tick.frameFor index rule stop))
      (tick.enterDecider setting (tick.frameFor index rule stop)) fun after noted =>
        Seeks setting.shape (index + 1) tick after ∧
          (after.machine.command = .error ∨
            noted = Lookup.due setting.shape tick.actor index) := by
  unfold recordEntry enterDecider
  by_cases full : tick.machine.frames.isFull = true
  · simp only [if_pos full]
    exact retells_pure ⟨.of_same (ready.later (Nat.le_succ _)) rfl, .inl rfl⟩
  · simp only [if_neg full]
    refine (retells_lift (ensures_true _)).bind fun nonempty noted first => ?_
    obtain ⟨-, rfl⟩ := first
    refine (retells_lift (ensures_true _)).bind fun _ noted second => ?_
    obtain ⟨-, rfl⟩ := second
    have searches : tick.failing.scan.Ready setting.shape index := ready
    refine (tick.failing.retells_resumption searches).bind fun resumed noted chosen => ?_
    obtain ⟨seeks, rfl⟩ := chosen
    have reached : Seeks setting.shape (index + 1) tick resumed.2.2 :=
      ⟨seeks.goesOn, seeks.ready⟩
    refine (retells_lift (resumed.2.2.scan_openAt setting resumed.1 resumed.2.1)).mono ?_
    rintro after _ ⟨same, rfl⟩
    refine ⟨reached.stay same, .inr ?_⟩
    unfold Lookup.due
    rw [stands]
    cases rule <;> rfl

end Tick

end BehaviorTree
