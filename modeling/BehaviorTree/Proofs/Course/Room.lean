import BehaviorTree.Proofs.Course.Reach

namespace BehaviorTree
open Course
variable {β : Type} {scene : Scene β}

namespace Scene

/-- The changes that cancel the persistent actions among the canceled atoms. -/
def slotChanges (scene : Scene β) (canceled : List Nat) : List (Entry Status) :=
  (canceled.filter fun atom => (scene.shape.atom? atom).any Atom.isPersistent).map
    fun atom => ⟨atom, .cancel⟩

theorem slotChanges_append (first second : List Nat) :
    scene.slotChanges (first ++ second) = scene.slotChanges first ++ scene.slotChanges second := by
  simp [slotChanges]

theorem cancelRequests_append (first second : List Nat) :
    scene.cancelRequests (first ++ second) =
      scene.cancelRequests first ++ scene.cancelRequests second := by
  simp [cancelRequests]

/-- The cancel requests are for the deferred actions among the canceled atoms. -/
theorem atoms_cancelRequests (canceled : List Nat) :
    (scene.cancelRequests canceled).map Request.atom =
      canceled.filter fun atom => (scene.shape.atom? atom).any Atom.isDeferred := by
  induction canceled with
  | nil => rfl
  | cons atom rest ih =>
    rw [← List.singleton_append, cancelRequests_append, List.map_append, ih, List.filter_append]
    congr 1
    rw [cancelRequests]
    cases stands : scene.shape.atom? atom with
    | none => simp [stands]
    | some node => cases node <;> simp [stands, Atom.isDeferred]

end Scene

namespace Sound
variable {position : Nat} {course : Course β}

theorem outstanding_le (sound : Sound scene position course) :
    course.outstanding.length ≤ scene.shape.needs.outstanding := by
  rw [Shape.needs_outstanding, ← List.length_map Entry.atom]
  apply scene.shape.length_le_countP Atom.isAction (List.nodup_append.mp sound.single).2.1
  intro atom member
  obtain ⟨entry, held, rfl⟩ := List.mem_map.mp member
  exact (sound.outstanding entry held).2.2

theorem continuations_le (sound : Sound scene position course) :
    course.continuations.length ≤ scene.shape.needs.continuations := by
  rw [Shape.needs_continuations, ← List.length_map Entry.atom]
  apply scene.shape.length_le_countP Atom.isSequence sound.distinct
  intro atom member
  obtain ⟨entry, held, rfl⟩ := List.mem_map.mp member
  exact (sound.continuations entry held).2

theorem slotChanges_le (sound : Sound scene position course) :
    (scene.slotChanges course.canceled).length ≤ scene.shape.needs.slotChanges := by
  rw [Shape.needs_slotChanges, Scene.slotChanges, List.length_map]
  refine scene.shape.length_le_countP Atom.isPersistent
    ((List.nodup_append.mp sound.single).1.filter _) ?_
  intro atom member
  exact (List.mem_filter.mp member).2

/-- No deferred action has both a launch and a cancel, nor two of one kind. -/
theorem requests_nodup (sound : Sound scene position course) :
    (course.launches.map Request.atom ++
      (scene.cancelRequests course.canceled).map Request.atom).Nodup := by
  obtain ⟨canceled, -, apart⟩ := List.nodup_append.mp sound.single
  rw [Scene.atoms_cancelRequests]
  refine List.nodup_append.mpr ⟨?_, canceled.filter _, ?_⟩
  · rw [List.Nodup, List.pairwise_map]
    exact sound.ordered.imp fun less => Nat.ne_of_lt less
  · intro first launched second member
    obtain ⟨request, requested, rfl⟩ := List.mem_map.mp launched
    have held := (sound.launches request requested).1
    exact (apart second (List.mem_filter.mp member).1 request.atom
      (List.mem_map.mpr ⟨_, held, rfl⟩)).symm

theorem requests_le (sound : Sound scene position course) :
    course.launches.length + (scene.cancelRequests course.canceled).length ≤
      scene.shape.needs.requests := by
  have count : course.launches.length + (scene.cancelRequests course.canceled).length =
      (course.launches.map Request.atom ++
        (scene.cancelRequests course.canceled).map Request.atom).length := by
    rw [List.length_append, List.length_map, List.length_map]
  rw [Shape.needs_requests, count]
  apply scene.shape.length_le_countP Atom.isDeferred sound.requests_nodup
  intro atom member
  rcases List.mem_append.mp member with launched | canceled
  · obtain ⟨request, requested, rfl⟩ := List.mem_map.mp launched
    rw [(sound.launches request requested).2.1]
    rfl
  · rw [Scene.atoms_cancelRequests] at canceled
    exact (List.mem_filter.mp canceled).2

end Sound

end BehaviorTree
