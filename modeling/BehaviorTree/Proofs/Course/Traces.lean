import BehaviorTree.Proofs.Course.Turns

namespace BehaviorTree
open Course
variable {β : Type} {scene : Scene β}

namespace Course
variable {index : Nat} {before middle after : Course β}

/-- From an index on, entries are added and spans are given up. -/
structure Adds (index : Nat) (before after : Course β) : Prop where
  outstanding : ∃ added, after.outstanding = before.outstanding ++ added ∧
    ∀ entry ∈ added, index ≤ entry.atom
  pending : after.pending.isEmpty = false → index ≤ after.pending.start

/-- Nothing from an index on is left: nothing is recorded or launched, and every entry is given
up. -/
structure Spotless (index : Nat) (before after : Course β) : Prop where
  continuations : after.continuations = before.continuations
  launches : after.launches = before.launches
  kept : ∀ entry, after.Keeps entry → entry.atom < index

namespace Adds

theorem refl (settled : before.pending.isEmpty = true) : Adds index before before := by
  refine ⟨⟨[], by simp⟩, fun nonempty => ?_⟩
  rw [settled] at nonempty
  cases nonempty

theorem trans (first : Adds index before middle) (second : Adds index middle after) :
    Adds index before after := by
  obtain ⟨added, added_eq, added_from⟩ := first.outstanding
  obtain ⟨more, more_eq, more_from⟩ := second.outstanding
  refine ⟨⟨added ++ more, by rw [more_eq, added_eq, List.append_assoc], fun entry member => ?_⟩,
    second.pending⟩
  rcases List.mem_append.mp member with member | member
  · exact added_from entry member
  · exact more_from entry member

theorem mono {earlier : Nat} (adds : Adds index before after) (below : earlier ≤ index) :
    Adds earlier before after := by
  obtain ⟨added, added_eq, added_from⟩ := adds.outstanding
  exact ⟨⟨added, added_eq, fun entry member => Nat.le_trans below (added_from entry member)⟩,
    fun nonempty => Nat.le_trans below (adds.pending nonempty)⟩

/-- What was there before a span is not drained with the span. -/
theorem drain (adds : Adds index before after)
    (earlier : ∀ entry ∈ before.outstanding, entry.atom < index) :
    Adds index before (after.drain scene) := by
  by_cases empty : after.pending.isEmpty = true
  · rw [drain_of_isEmpty scene empty]
    exact adds
  rw [Bool.not_eq_true] at empty
  obtain ⟨board, seed, calls, drained⟩ := drain_eq scene empty
  obtain ⟨added, added_eq, added_from⟩ := adds.outstanding
  have from_ := adds.pending empty
  have spared : (before.outstanding.filter fun entry =>
      decide (entry.atom < after.pending.start)) = before.outstanding := by
    rw [List.filter_eq_self]
    intro entry member
    exact decide_eq_true (Nat.lt_of_lt_of_le (earlier entry member) from_)
  rw [drained]
  refine ⟨⟨added.filter fun entry => decide (entry.atom < after.pending.start), ?_, ?_⟩, ?_⟩
  · rw [added_eq, List.filter_append, spared]
  · exact fun entry member => added_from entry (List.mem_filter.mp member).1
  · intro nonempty
    cases nonempty

theorem abandon (adds : Adds index before after) {span : Span} (from_ : index ≤ span.start) :
    Adds index before (after.abandon span) := by
  refine ⟨adds.outstanding, fun nonempty => ?_⟩
  rcases Nat.lt_or_ge span.start span.stop with second | empty
  · have second := span.isEmpty_eq_false_iff.mpr second
    by_cases first : after.pending.isEmpty = true
    · simpa only [Course.abandon, Span.cover_isEmpty first second] using from_
    · rw [Bool.not_eq_true] at first
      have := adds.pending first
      simp only [Course.abandon, Span.cover_nonempty first second]
      omega
  · rw [abandon_isEmpty empty] at nonempty ⊢
    exact adds.pending nonempty

end Adds

namespace Spotless

/-- A drain restores what was outstanding, where all that was added is given up. -/
theorem drain (spotless : Spotless index before after) (adds : Adds index before after)
    (earlier : ∀ entry ∈ before.outstanding, entry.atom < index) :
    (after.drain scene).outstanding = before.outstanding := by
  have drained : Adds index before (after.drain scene) := adds.drain earlier
  obtain ⟨added, added_eq, added_from⟩ := drained.outstanding
  cases added with
  | nil => rw [added_eq, List.append_nil]
  | cons entry rest =>
    have held : entry ∈ (after.drain scene).outstanding := by
      rw [added_eq]
      exact List.mem_append_right _ List.mem_cons_self
    have kept := (after.keeps_drain entry).mp ⟨held, Or.inl (after.isEmpty_pending_drain scene)⟩
    have := spotless.kept entry kept
    have := added_from entry List.mem_cons_self
    omega

/-- What is added and not kept is about to be drained. -/
theorem contains {position : Nat} (spotless : Spotless index before after)
    (sound : Sound scene position after) {entry : Entry Status} (held : entry ∈ after.outstanding)
    (from_ : index ≤ entry.atom) : after.pending.contains entry.atom = true := by
  have lost : ¬after.Keeps entry :=
    fun kept => absurd (spotless.kept entry kept) (Nat.not_lt.mpr from_)
  have pending : after.pending.isEmpty = false := by
    by_contra empty
    exact lost ⟨held, Or.inl (by simpa using empty)⟩
  have start_le : after.pending.start ≤ entry.atom :=
    Nat.le_of_not_lt fun before => lost ⟨held, Or.inr before⟩
  have before_stop : entry.atom < after.pending.stop :=
    Nat.lt_of_lt_of_le (sound.outstanding entry held).1 (sound.pending_stop pending).1
  exact (Span.contains_iff _ _).mpr ⟨start_le, before_stop⟩

end Spotless

namespace Keeps

/-- What is kept is not about to be drained. -/
theorem contains_eq {entry : Entry Status} (keeps : after.Keeps entry) :
    after.pending.contains entry.atom = false := by
  rw [← Bool.not_eq_true, Span.contains_iff]
  rcases keeps.2 with empty | before
  · have := after.pending.isEmpty_iff.mp empty
    omega
  · omega

end Keeps

/-- What nodes from an index on have come to that were visited one after the other, and delivered
statuses. -/
structure Traces (scene : Scene β) (index : Nat) (statuses : List Status)
    (before after : Course β) : Prop where
  adds : Adds index before after
  finished : (∀ status ∈ statuses, status.isActive = false) → Spotless index before after
  succeeded : (∀ status ∈ statuses, status.isActive = false) →
    (∀ status ∈ statuses.getLast?, status = .success) → after.outstanding = before.outstanding
  active : (∃ status ∈ statuses, status.isActive = true) →
    ∃ entry, after.Keeps entry ∧ index ≤ entry.atom
  -- A sequence is left at a child that keeps something outstanding.
  recorded : ∀ entry ∈ after.continuations, index ≤ entry.atom → ∃ kept, after.Keeps kept ∧
    entry.value ≤ kept.atom ∧ kept.atom < scene.shape.stopAt entry.value

namespace Traces
variable {statuses others : List Status}

/-- Where nothing has been visited, there are no traces. -/
theorem refl (sound : Sound scene index before) (settled : before.pending.isEmpty = true) :
    Traces scene index [] before before where
  adds := .refl settled
  finished _ := ⟨rfl, rfl, fun _ keeps => sound.outstanding_lt keeps.1⟩
  succeeded _ _ := rfl
  active := by rintro ⟨status, member, -⟩; cases member
  recorded entry member from_ := by
    have := (sound.continuations entry member).1
    omega

/-- A later visit begins with a drain of what is given up. -/
theorem trans {later : Nat} (first : Traces scene index statuses before middle)
    (second : Traces scene later others (middle.drain scene) after)
    (grows : Grows later middle after) (forward : index ≤ later)
    (passed : ∀ entry ∈ middle.outstanding, entry.atom < later)
    (earlier : ∀ entry ∈ before.outstanding, entry.atom < index) (used : others ≠ []) :
    Traces scene index (statuses ++ others) before after := by
  have keeps (entry : Entry Status) (keeps : middle.Keeps entry) : after.Keeps entry :=
    (grows.keeps entry (passed entry keeps.1)).mpr keeps
  refine ⟨(first.adds.drain earlier).trans (second.adds.mono forward), fun inactive => ?_,
    fun inactive last => ?_, ?_, fun entry member from_ => ?_⟩
  · obtain ⟨inactive, others_inactive⟩ := List.forall_mem_append.mp inactive
    have spotless := first.finished inactive
    have others_spotless := second.finished others_inactive
    refine ⟨?_, ?_, fun entry kept => ?_⟩
    · rw [others_spotless.continuations, continuations_drain, spotless.continuations]
    · rw [others_spotless.launches, launches_drain, spotless.launches]
    · exact spotless.kept entry ((grows.keeps entry (others_spotless.kept entry kept)).mp kept)
  · obtain ⟨inactive, others_inactive⟩ := List.forall_mem_append.mp inactive
    rw [List.getLast?_append_of_ne_nil _ used] at last
    rw [second.succeeded others_inactive last, (first.finished inactive).drain first.adds earlier]
  · rintro ⟨status, member, active⟩
    rcases List.mem_append.mp member with member | member
    · obtain ⟨entry, kept, from_⟩ := first.active ⟨status, member, active⟩
      exact ⟨entry, keeps entry kept, from_⟩
    · obtain ⟨entry, kept, from_⟩ := second.active ⟨status, member, active⟩
      exact ⟨entry, kept, Nat.le_trans forward from_⟩
  · obtain ⟨added, added_eq, added_from⟩ := grows.continuations
    rw [added_eq] at member
    rcases List.mem_append.mp member with already | now
    · obtain ⟨kept, held, within⟩ := first.recorded entry already from_
      exact ⟨kept, keeps kept held, within⟩
    · rw [← added_eq] at member
      exact second.recorded entry member (added_from entry now)

/-- Several statuses are summarized by one that is active if one of them is, and that is success
only if all of them or the last of them are. -/
theorem summarize (traces : Traces scene index statuses before after) {status : Status}
    (active : status.isActive = statuses.any Status.isActive)
    (success : status = .success → ∀ other ∈ statuses.getLast?, other = .success) :
    Traces scene index [status] before after := by
  have inactive (finished : ∀ other ∈ [status], other.isActive = false) :
      ∀ other ∈ statuses, other.isActive = false := by
    have := (finished status List.mem_cons_self).symm.trans active
    simpa using this.symm
  refine ⟨traces.adds, fun finished => traces.finished (inactive finished), fun finished last => ?_,
    fun found => traces.active ?_, traces.recorded⟩
  · exact traces.succeeded (inactive finished) (success (last status rfl))
  · obtain ⟨other, member, running⟩ := found
    rw [List.mem_singleton.mp member, active, List.any_eq_true] at running
    exact running

/-- What is given up behind the visited nodes takes no trace away. -/
theorem abandon (traces : Traces scene index statuses before after) {span : Span}
    (forward : index ≤ span.start) (passed : ∀ entry ∈ after.outstanding, entry.atom < span.start) :
    Traces scene index statuses before (after.abandon span) := by
  have keeps (entry : Entry Status) (keeps : after.Keeps entry) :
      (after.abandon span).Keeps entry :=
    ((Grows.abandon span after).keeps entry (passed entry keeps.1)).mpr keeps
  refine ⟨traces.adds.abandon forward, fun inactive => ?_, traces.succeeded, fun active => ?_,
    fun entry member from_ => ?_⟩
  · have spotless := traces.finished inactive
    exact ⟨spotless.continuations, spotless.launches,
      fun entry kept => spotless.kept entry (keeps_of_abandon kept)⟩
  · obtain ⟨entry, kept, from_⟩ := traces.active active
    exact ⟨entry, keeps entry kept, from_⟩
  · obtain ⟨kept, held, within⟩ := traces.recorded entry member from_
    exact ⟨kept, keeps kept held, within⟩

/-- A drain takes no trace away. -/
theorem drain (traces : Traces scene index statuses before after)
    (earlier : ∀ entry ∈ before.outstanding, entry.atom < index) :
    Traces scene index statuses before (after.drain scene) := by
  have keeps (entry : Entry Status) : (after.drain scene).Keeps entry ↔ after.Keeps entry :=
    after.keeps_drain entry
  refine ⟨traces.adds.drain earlier, fun inactive => ?_, fun inactive _ =>
    (traces.finished inactive).drain traces.adds earlier, fun active => ?_,
    fun entry member from_ => ?_⟩
  · have spotless := traces.finished inactive
    exact ⟨by rw [continuations_drain, spotless.continuations],
      by rw [launches_drain, spotless.launches],
      fun entry kept => spotless.kept entry ((keeps entry).mp kept)⟩
  · obtain ⟨entry, kept, from_⟩ := traces.active active
    exact ⟨entry, (keeps entry).mpr kept, from_⟩
  · rw [continuations_drain] at member
    obtain ⟨kept, held, within⟩ := traces.recorded entry member from_
    exact ⟨kept, (keeps kept).mpr held, within⟩

/-- The visit of a decider itself leaves no trace. -/
theorem of_enter {decider : Nat}
    (traces : Traces scene index statuses (before.enter decider) after) :
    Traces scene index statuses before after := by
  refine ⟨⟨traces.adds.outstanding, traces.adds.pending⟩, fun inactive => ?_, traces.succeeded,
    traces.active, traces.recorded⟩
  have spotless := traces.finished inactive
  exact ⟨spotless.continuations, spotless.launches, spotless.kept⟩

/-- A sequence is left at a child that keeps something outstanding. -/
theorem record (traces : Traces scene index statuses before after) {sequence child : Nat}
    (active : ∃ status ∈ statuses, status.isActive = true)
    (held : ∃ kept, after.Keeps kept ∧ child ≤ kept.atom ∧
      kept.atom < scene.shape.stopAt child) :
    Traces scene index statuses before (after.record sequence child) := by
  obtain ⟨status, visited, running⟩ := active
  have notFinished (inactive : ∀ status ∈ statuses, status.isActive = false) : False := by
    have := inactive status visited
    rw [running] at this
    cases this
  refine ⟨⟨traces.adds.outstanding, traces.adds.pending⟩,
    fun inactive => (notFinished inactive).elim, traces.succeeded, traces.active,
    fun entry member from_ => ?_⟩
  rcases List.mem_append.mp member with already | now
  · exact traces.recorded entry already from_
  · obtain rfl := List.mem_singleton.mp now
    exact held

/-- A concurrent decider that fails takes everything back. -/
theorem takeBack (traces : Traces scene index statuses before after) {stop : Nat}
    (forward : index < stop) (sound : Sound scene index before) :
    Traces scene index [.fail] before ((after.takeBack before).abandon ⟨index, stop⟩) := by
  have taken : Adds index before (after.takeBack before) :=
    ⟨traces.adds.outstanding, traces.adds.pending⟩
  refine ⟨taken.abandon (Nat.le_refl index), fun _ => ⟨rfl, rfl, fun entry kept =>
    ((keeps_abandon forward entry).mp kept).2⟩, fun _ last => ?_, ?_, fun entry member from_ => ?_⟩
  · cases last .fail rfl
  · rintro ⟨status, member, active⟩
    obtain rfl := List.mem_singleton.mp member
    cases active
  · have := (sound.continuations entry member).1
    omega

/-- A visit of an action leaves its entry, if it is active, and its launch. -/
theorem visit {leaf : Leaf} (sound : Sound scene index before)
    (settled : before.pending.isEmpty = true) :
    Traces scene index [(before.visit scene index leaf).1] before
      (before.visit scene index leaf).2 := by
  obtain ⟨status, added, entry, request, board, seed, delivers, visited⟩ :=
    before.visit_eq scene index leaf
  rw [visited]
  refine ⟨⟨⟨_, rfl, fun other member => ?_⟩, fun nonempty => ?_⟩, fun finished => ?_,
    fun finished _ => ?_, ?_, fun other member from_ => ?_⟩
  · obtain ⟨value, -, rfl⟩ := List.mem_map.mp member
    exact Nat.le_refl index
  · rw [settled] at nonempty
    cases nonempty
  · obtain ⟨rfl, rfl⟩ := delivers.nothing_left (finished status List.mem_cons_self)
    refine ⟨rfl, List.append_nil _, fun other kept => ?_⟩
    have kept : other ∈ before.outstanding := by simpa using kept.1
    exact sound.outstanding_lt kept
  · obtain ⟨rfl, -⟩ := delivers.nothing_left (finished status List.mem_cons_self)
    simp
  · rintro ⟨other, member, active⟩
    obtain rfl := List.mem_singleton.mp member
    rw [← delivers.isSome_entry] at active
    obtain ⟨value, rfl⟩ := Option.isSome_iff_exists.mp active
    exact ⟨⟨index, value⟩, ⟨by simp, Or.inl settled⟩, Nat.le_refl index⟩
  · have := (sound.continuations other member).1
    omega

end Traces

end Course

/-- What a decider concludes leaves the traces of its children. -/
theorem Unfolds.traces {rule : Rule} {span : Span} {entered after : Course β} {forest : List Tree}
    {passed : List (Turn β)} {last : Option (Turn β)} (ready : scene.Ready)
    (unfolds : Unfolds scene rule span entered forest passed last after)
    (settled : entered.pending.isEmpty = true) (sound : Sound scene span.start entered)
    (turns : ∀ turn : Turn β, turn.Valid scene → turn.Within span →
      Traces scene turn.index [turn.status scene] (turn.course.drain scene) (turn.after scene)) :
    Traces scene span.start [(rule.conclude scene span entered passed last after).1] entered
      (rule.conclude scene span entered passed last after).2 := by
  have step (turn : Turn β) (done : List (Turn β)) (valid : turn.Valid scene)
      (within : turn.Within span)
      (before : Traces scene span.start (done.map fun turn => turn.status scene) entered
        turn.course) :
      Traces scene span.start (done.map (fun turn => turn.status scene) ++ [turn.status scene])
        entered (turn.after scene) :=
    before.trans (turns turn valid within) (turn.grows scene) (Nat.le_of_lt within.1)
      (fun entry member => valid.sound.outstanding_lt member)
      (fun entry member => sound.outstanding_lt member) (List.cons_ne_nil _ _)
  obtain ⟨passes, ends⟩ := unfolds.invariant ready
    (motive := fun _ course done =>
      Traces scene span.start (done.map fun turn => turn.status scene) entered course)
    (fun turn done valid within _ before => by
      rw [List.map_append]
      exact step turn done valid within before)
    (.refl sound settled)
  have on := unfolds.turns.goesOn_of_mem
  have idle (different : rule ≠ .concurrent) :
      (passed.map fun turn => turn.status scene).any Status.isActive = false := by
    rw [List.any_map, List.any_eq_false]
    intro turn member
    simp [Rule.idle_of_goesOn different (on turn member)]
  cases last with
  | none =>
    obtain ⟨-, traces⟩ := passes rfl
    cases rule with
    | sequence =>
      refine traces.summarize (idle Rule.noConfusion).symm fun _ other last => ?_
      obtain ⟨turn, member, rfl⟩ := List.mem_map.mp (List.mem_of_getLast? last)
      exact of_decide_eq_true (on turn member)
    | dynamicPriority => exact traces.summarize (idle Rule.noConfusion).symm (by rintro ⟨⟩)
    | concurrent =>
      simp only [Rule.conclude]
      by_cases running : (passed.any fun turn => (turn.status scene).isActive) = true
      · rw [if_pos running]
        refine traces.summarize ?_ (by rintro ⟨⟩)
        rw [List.any_map]
        exact running.symm
      · rw [if_neg running]
        rw [Bool.not_eq_true] at running
        refine traces.summarize ?_ fun _ other last => ?_
        · rw [List.any_map]
          exact running.symm
        · -- A child that has neither failed nor stays active has succeeded.
          obtain ⟨turn, member, rfl⟩ := List.mem_map.mp (List.mem_of_getLast? last)
          have passes := of_decide_eq_true (on turn member)
          have inactive := List.any_eq_false.mp running turn member
          exact Status.eq_success (by simpa using inactive) passes (turn.status_ne_cancel scene)
  | some turn =>
    obtain ⟨valid, within, -, rfl, traces⟩ := ends turn rfl
    have traces := step turn passed valid within traces
    have forward := Nat.lt_trans within.1 turn.index_lt_stop
    have sound_after := valid.sound_after ready
    cases rule with
    | sequence =>
      have summary : Traces scene span.start [turn.status scene] entered (turn.after scene) :=
        traces.summarize (by simp [idle]) fun success other last => by simp_all
      simp only [Rule.conclude]
      by_cases running : (turn.status scene).isActive = true
      · rw [if_pos running]
        obtain ⟨kept, held, from_⟩ := (turns turn valid within).active
          ⟨_, List.mem_cons_self, running⟩
        refine summary.record ⟨_, List.mem_cons_self, running⟩ ⟨kept, held, from_, ?_⟩
        rw [valid.stopAt]
        exact sound_after.outstanding_lt held.1
      · rw [if_neg running]
        exact summary
    | dynamicPriority =>
      have summary : Traces scene span.start [turn.status scene] entered (turn.after scene) :=
        traces.summarize (by simp [idle]) fun success other last => by simp_all
      exact summary.abandon (Nat.le_of_lt forward) fun entry member =>
        sound_after.outstanding_lt member
    | concurrent =>
      exact traces.takeBack (Nat.lt_of_lt_of_le forward within.2) sound

/-- What the visit of a node leaves. -/
theorem Turn.Valid.traces (ready : scene.Ready) {turn : Turn β} (valid : turn.Valid scene) :
    Traces scene turn.index [turn.status scene] (turn.course.drain scene) (turn.after scene) := by
  refine Turn.Valid.induction
    (motive := fun turn => Traces scene turn.index [turn.status scene] (turn.course.drain scene)
      (turn.after scene)) (fun {leaf index course} valid => ?_)
    (fun {rule children index course} valid smaller => ?_) valid
  · simp only [Turn.status, Turn.after, Turn.finish, Tree.interpret]
    exact .visit (valid.sound.drain ready) (by simp)
  · have drained := valid.sound.drain ready
    obtain ⟨passed, last, after, unfolds, finish_eq⟩ := valid.unfolds ready
    simp only [Turn.status, Turn.after, finish_eq]
    exact (unfolds.traces ready (by simp [Course.enter]) { drained with } smaller).of_enter

/-- What an update leaves. -/
theorem Scene.traces_update (ready : scene.Ready) (board : β) :
    Traces scene 0 [(scene.update board).1] (scene.opening board) (scene.update board).2 := by
  have traces := (scene.whole_valid board).traces ready
  have untouched : (scene.opening board).drain scene = scene.opening board :=
    drain_of_isEmpty scene rfl
  simp only [whole, untouched] at traces
  exact traces.drain fun entry member => by cases member

end BehaviorTree
