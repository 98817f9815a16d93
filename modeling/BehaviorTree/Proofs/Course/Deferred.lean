import BehaviorTree.Proofs.Course.Move

namespace BehaviorTree
open Course
variable {β : Type} {scene : Scene β} {atom action resource position : Nat} {course : Course β}

/-- How a deferred action stands in the course of a tick. -/
structure Course.Accounts (scene : Scene β) (atom position : Nat) (course : Course β) : Prop where
  entries : ∀ value, ⟨atom, value⟩ ∈ course.outstanding →
    value = .launch ∧ scene.remembered atom = none ∨ value = .running ∧ scene.wasActive atom = true
  launched : ⟨atom, .launch⟩ ∈ course.outstanding →
    (∃ request ∈ course.launches, request.atom = atom) ∨
      course.pending.isEmpty = false ∧ course.pending.start ≤ atom
  canceled : atom ∈ course.canceled → scene.wasActive atom = true
  settled : course.Settles scene atom position
    (⟨atom, .running⟩ ∈ course.outstanding ∨ atom ∈ course.canceled)

namespace Course.Accounts

theorem opening (scene : Scene β) (atom : Nat) (board : β) :
    (scene.opening board).Accounts scene atom 0 where
  entries value member := by cases member
  launched member := by cases member
  canceled member := by cases member
  settled := .opening scene atom _ _

theorem drain (ready : scene.Ready)
    (stands : scene.shape.atom? atom = some (.deferred action resource))
    (accounts : course.Accounts scene atom position) :
    (course.drain scene).Accounts scene atom position := by
  by_cases empty : course.pending.isEmpty = true
  · rw [drain_of_isEmpty scene empty]
    exact accounts
  rw [Bool.not_eq_true] at empty
  obtain ⟨board, seed, calls, drained⟩ := drain_eq scene empty
  have owes (value : Status) (member : ⟨atom, value⟩ ∈ course.outstanding) :
      scene.owes ⟨atom, value⟩ = true ↔ value = .running := by
    rcases accounts.entries value member with ⟨rfl, -⟩ | ⟨rfl, -⟩
    · simp [Scene.owes, stands, Atom.isDeferred, Status.isActive]
    · simp [Scene.owes, Status.isActive]
  rw [drained]
  refine ⟨fun value member => accounts.entries value (List.mem_filter.mp member).1,
    fun member => ?_, fun member => ?_, fun active before => ?_⟩
  · obtain ⟨member, below⟩ := List.mem_filter.mp member
    rw [decide_eq_true_eq] at below
    rcases accounts.launched member with requested | ⟨-, behind⟩
    · exact Or.inl requested
    · exact absurd below (by simpa using behind)
  · rcases List.mem_append.mp member with earlier | now
    · exact accounts.canceled earlier
    · rcases (mem_toCancel ready atom).mp now with ⟨-, -, active⟩ | ⟨⟨_, value⟩, held, rfl, -, owed⟩
      · exact active
      · rcases accounts.entries value held with ⟨rfl, -⟩ | ⟨-, active⟩
        · cases (owes _ held).mp owed
        · exact active
  · apply Or.inl
    rcases accounts.settled active before with (held | canceled) | ⟨ahead, covered⟩
    · rcases Nat.lt_or_ge atom course.pending.start with below | behind
      · exact Or.inl (List.mem_filter.mpr ⟨held, by simpa using below⟩)
      · apply Or.inr
        apply List.mem_append_right
        exact (mem_toCancel ready atom).mpr
          (Or.inr ⟨_, held, rfl, behind, (owes _ held).mpr rfl⟩)
    · exact Or.inr (List.mem_append_left _ canceled)
    · apply Or.inr
      apply List.mem_append_right
      exact (mem_toCancel ready atom).mpr (Or.inl ⟨covered, ahead, active⟩)

theorem visit {leaf : Leaf} (stands : scene.shape.atom? atom = some (.deferred action resource))
    (here : scene.shape.atom? position = some leaf.atom)
    (empty : course.pending.isEmpty = true) (sound : Sound scene position course)
    (accounts : course.Accounts scene atom position) :
    (course.visit scene position leaf).2.Accounts scene atom (position + 1) := by
  obtain ⟨status, added, entry, request, board, seed, delivers, visited⟩ :=
    course.visit_eq scene position leaf
  rw [visited]
  by_cases same : atom = position
  · subst same
    have fresh (value : Status) : ⟨atom, value⟩ ∉ course.outstanding := by
      intro member
      exact Nat.lt_irrefl atom (sound.outstanding_lt member)
    have spared : atom ∉ course.canceled := by
      intro member
      exact Nat.lt_irrefl atom (sound.canceled_lt member)
    obtain rfl : leaf = .deferred action resource := by
      rw [here] at stands
      cases leaf <;> cases stands
      rfl
    cases delivers with
    | launched _ _ unknown =>
      have idle : scene.wasActive atom = false := by simp [Scene.wasActive, unknown]
      refine ⟨fun value member => Or.inl ⟨?_, unknown⟩, fun _ => Or.inl ?_,
        fun member => absurd member spared, fun active => ?_⟩
      · simpa [fresh] using member
      · exact ⟨⟨action, resource, atom⟩, List.mem_append_right _ (by simp), rfl⟩
      · rw [idle] at active
        cases active
    | carried _ _ active =>
      refine ⟨fun value member => Or.inr ⟨?_, active⟩, fun member => ?_,
        fun member => absurd member spared, fun _ _ => Or.inl (Or.inl (by simp))⟩
      · simpa [fresh] using member
      · simp [fresh] at member
    | ended _ _ status known idle =>
      have idle : scene.wasActive atom = false := by simp [Scene.wasActive, known, idle]
      refine ⟨fun value member => ?_, fun member => ?_, fun member => absurd member spared,
        fun active => ?_⟩
      · simp [fresh] at member
      · simp [fresh] at member
      · rw [idle] at active
        cases active
  · have unchanged (value : Status) :
        ⟨atom, value⟩ ∈ course.outstanding ++ entry.toList.map (fun value => ⟨position, value⟩) ↔
          ⟨atom, value⟩ ∈ course.outstanding := by
      simp [Ne.symm same]
    refine ⟨fun value member => accounts.entries value ((unchanged value).mp member),
      fun member => ?_, accounts.canceled, fun active before => ?_⟩
    · rcases accounts.launched ((unchanged _).mp member) with ⟨launch, requested, own⟩ | pending
      · exact Or.inl ⟨launch, List.mem_append_left _ requested, own⟩
      · exact Or.inr pending
    · rcases accounts.settled.dealt_of_isEmpty empty active (by omega) with held | canceled
      · exact Or.inl (Or.inl ((unchanged _).mpr held))
      · exact Or.inl (Or.inr canceled)

/-- What is abandoned is settled up to its end. -/
theorem abandon (accounts : course.Accounts scene atom position) {start stop : Nat}
    (frontier : course.frontier ≤ position) (from_ : start ≤ position) :
    (course.abandon ⟨start, stop⟩).Accounts scene atom stop where
  entries := accounts.entries
  launched member := by
    rcases accounts.launched member with requested | ⟨nonempty, behind⟩
    · exact Or.inl requested
    · exact Or.inr (Span.start_cover_le nonempty behind)
  canceled := accounts.canceled
  settled := accounts.settled.abandon frontier from_

/-- A failure takes launches back only in the span that it abandons. -/
theorem fail (accounts : course.Accounts scene atom position) {decider stop : Nat}
    {entered : Course β} (frontier : course.frontier ≤ position) (passed : decider < position)
    (forward : position ≤ stop) (grown : Grows (decider + 1) entered course) :
    ((course.takeBack entered).abandon ⟨decider, stop⟩).Accounts scene atom stop := by
  have nonempty : (Span.mk decider stop).isEmpty = false := by
    rw [Span.isEmpty_eq_false_iff]
    simp only
    omega
  obtain ⟨added, launches, behind⟩ := grown.launches
  have abandoned : (course.abandon ⟨decider, stop⟩).Accounts scene atom stop :=
    accounts.abandon frontier (Nat.le_of_lt passed)
  refine ⟨abandoned.entries, fun member => ?_, abandoned.canceled, abandoned.settled⟩
  rcases abandoned.launched member with ⟨request, requested, rfl⟩ | pending
  · have requested : request ∈ course.launches := requested
    rw [launches] at requested
    rcases List.mem_append.mp requested with earlier | now
    · exact Or.inl ⟨request, earlier, rfl⟩
    · exact Or.inr (Span.cover_start_le nonempty (Nat.le_of_succ_le (behind request now)))
  · exact Or.inr pending

/-- Every move keeps the account of a deferred action. -/
theorem move (ready : scene.Ready)
    (stands : scene.shape.atom? atom = some (.deferred action resource)) {later : Nat}
    {after : Course β}
    (move : Move scene (fun index => scene.wasActive index = false) position course later after)
    (sound : Sound scene position course) (accounts : course.Accounts scene atom position) :
    after.Accounts scene atom later := by
  cases move with
  | drain => exact accounts.drain ready stands
  | enter here =>
    refine ⟨accounts.entries, accounts.launched, accounts.canceled, ?_⟩
    apply accounts.settled.pass
    intro reached before
    obtain rfl : atom = position := by omega
    rw [stands] at here
    cases here
  | visit here empty => exact accounts.visit stands here empty sound
  | pass _ _ skipped => exact { accounts with settled := accounts.settled.pass (skipped atom) }
  | record => exact ⟨accounts.entries, accounts.launched, accounts.canceled, accounts.settled⟩
  | abandon => exact accounts.abandon sound.frontier_le (Nat.le_refl _)
  | fail passed forward _ grown => exact accounts.fail sound.frontier_le passed forward grown

/-- A run of moves keeps the account of a deferred action. -/
theorem reaches (ready : scene.Ready)
    (stands : scene.shape.atom? atom = some (.deferred action resource)) {later : Nat}
    {after : Course β}
    (reaches : Reaches scene (fun index => scene.wasActive index = false) position course later
      after)
    (sound : Sound scene position course) (accounts : course.Accounts scene atom position) :
    after.Accounts scene atom later :=
  sound.invariant ready
    (fun _ _ _ _ last sound accounts => Accounts.move ready stands last sound accounts) reaches
    accounts

end Course.Accounts

end BehaviorTree
