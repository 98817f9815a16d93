import BehaviorTree.Machine.Step
import BehaviorTree.Proofs.Storage.Outcomes

namespace BehaviorTree
open Checked

/-- How a decider that goes on behind a child takes note of the status of the child. -/
inductive Progress.Heeds (status : Status) (next : Nat) : Progress → Progress → Prop
  | sequence {reached : Nat} : Heeds status next (.sequence reached) (.sequence next)
  | dynamicPriority : Heeds status next .dynamicPriority .dynamicPriority
  | active {aggregate : Status} (active : status.isActive = true) :
      Heeds status next (.concurrent aggregate) (.concurrent .running)
  | passive {aggregate : Status} (passive : status.isActive = false) :
      Heeds status next (.concurrent aggregate) (.concurrent aggregate)

namespace Machine

/-- What a decider may make of the status of a child. -/
inductive Notes (machine : Machine) (frame : Frame) : Frame × Machine → Prop
  | goesOn {progress : Progress}
      (heeds : frame.progress.Heeds machine.status machine.cursor progress) :
      Notes machine frame ({ frame with progress }, machine)
  /-- A sequence remembers its active child. -/
  | records {reached : Nat} {continuations : Buffer (Entry Nat)}
      (progress : frame.progress = .sequence reached) (active : machine.status.isActive = true)
      (pushed : machine.continuations.push ⟨frame.atom, reached⟩ = .ok continuations) :
      Notes machine frame (frame, { machine with continuations, cursor := frame.stop })
  /-- A sequence fails with its child. -/
  | fails {reached : Nat} (progress : frame.progress = .sequence reached)
      (failed : machine.status = .fail ∨ machine.status = .cancel) :
      Notes machine frame (frame, { machine with cursor := frame.stop })
  /-- A dynamic priority has made its choice, and gives up the children behind it. -/
  | chooses (progress : frame.progress = .dynamicPriority)
      (chosen : machine.status.isActive = true ∨ machine.status = .success) :
      Notes machine frame (frame, { machine with
        pending := machine.pending.cover ⟨machine.cursor, frame.stop⟩
        cursor := frame.stop })
  /-- A concurrent decider fails with its child, and takes back what was emitted in it. -/
  | takesBack {aggregate : Status} {continuations : Buffer (Entry Nat)} {requests : RequestQueue}
      (progress : frame.progress = .concurrent aggregate)
      (failed : machine.status = .fail ∨ machine.status = .cancel)
      (cut : machine.continuations.truncate frame.continuationMark = .ok continuations)
      (revoked : machine.requests.truncateLaunches frame.launchMark = .ok requests) :
      Notes machine frame (frame, { machine with
        continuations
        requests
        pending := machine.pending.cover ⟨frame.atom, frame.stop⟩
        cursor := frame.stop })

/-- A status is absorbed in one of these ways. -/
theorem absorb_notes (machine : Machine) (frame : Frame) :
    (machine.absorb frame).Ensures (machine.Notes frame) := by
  unfold absorb
  split
  · next reached progress =>
    have records (active : machine.status.isActive = true) :
        (do
          let continuations ← machine.continuations.push ⟨frame.atom, reached⟩
          return (frame, { machine with continuations, cursor := frame.stop }) :
            Checked (Frame × Machine)).Ensures (machine.Notes frame) :=
      (ensures_self _).bind fun _ pushed => ensures_pure.mpr (.records progress active pushed)
    unfold absorbSequence
    split
    · next status => exact records (by rw [status]; rfl)
    · next status => exact records (by rw [status]; rfl)
    · exact ensures_ok.mpr (.goesOn (progress ▸ .sequence))
    · next status => exact ensures_ok.mpr (.fails progress (.inl status))
    · next status => exact ensures_ok.mpr (.fails progress (.inr status))
  · next progress =>
    have goes : machine.Notes frame (frame, machine) := by
      have heeds : frame.progress.Heeds machine.status machine.cursor frame.progress := by
        rw [progress]
        exact .dynamicPriority
      exact .goesOn heeds
    refine ensures_ok.mpr ?_
    unfold absorbDynamicPriority
    split
    · next status => exact .chooses progress (.inl (by rw [status]; rfl))
    · next status => exact .chooses progress (.inl (by rw [status]; rfl))
    · next status => exact .chooses progress (.inr status)
    · exact goes
    · exact goes
  · next aggregate progress =>
    have runs (active : machine.status.isActive = true) :
        machine.Notes frame ({ frame with progress := .concurrent .running }, machine) :=
      .goesOn (progress ▸ .active active)
    unfold absorbConcurrent
    split
    · next status => exact ensures_ok.mpr (runs (by rw [status]; rfl))
    · next status => exact ensures_ok.mpr (runs (by rw [status]; rfl))
    · next status =>
      have heeds : frame.progress.Heeds machine.status machine.cursor frame.progress := by
        rw [progress]
        exact .passive (by rw [status]; rfl)
      exact ensures_ok.mpr (.goesOn heeds)
    · next status =>
      exact (ensures_self _).bind fun _ cut => (ensures_self _).bind fun _ revoked =>
        ensures_pure.mpr (.takesBack progress (.inl status) cut revoked)
    · next status =>
      exact (ensures_self _).bind fun _ cut => (ensures_self _).bind fun _ revoked =>
        ensures_pure.mpr (.takesBack progress (.inr status) cut revoked)

end Machine

end BehaviorTree
