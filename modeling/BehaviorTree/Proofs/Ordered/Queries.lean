import BehaviorTree.Proofs.Ordered.Cursor

namespace BehaviorTree.Ordered

/-- A query looks for a key; a take also steps past the entry that it finds. -/
inductive Query where
  | seek (sought : Nat)
  | take (sought : Nat)
  deriving DecidableEq

@[simp] def Query.sought : Query → Nat
  | seek sought => sought
  | take sought => sought

/-- What a query reports. -/
inductive Report where
  | seen (hit : Bool)
  | taken (position : Option Nat)
  deriving DecidableEq

def Report.isHit : Report → Bool
  | seen hit => hit
  | taken position => position.isSome

/-- A query with its report, and where the cursor stood before and after it. -/
structure Answered where
  query : Query
  report : Report
  before : Nat
  after : Nat
  deriving DecidableEq

/-- A take that hits consumes the key. -/
def Answered.Consumes (answered : Answered) (sought : Nat) : Prop :=
  answered.query = .take sought ∧ answered.report.isHit = true

section Answers
variable {α : Type} [Keyed α]

/-- A query is answered at a cursor. -/
def Query.answer (entries : Array α) (cursor : Nat) : Query → Checked Answered
  | seek sought =>
      let (hit, after) := Ordered.seek entries sought cursor
      .ok ⟨.seek sought, .seen hit, cursor, after⟩
  | take sought => do
      let (position, after) ← Ordered.take entries sought cursor
      return ⟨.take sought, .taken position, cursor, after⟩

/-- Queries are answered one after the other, each where the one before it left the cursor. -/
def answers (entries : Array α) : List Query → Nat → Checked (List Answered)
  | [], _ => .ok []
  | query :: queries, cursor => do
      let answered ← query.answer entries cursor
      return answered :: (← answers entries queries answered.after)

/-- A query is answered as the whole array would have it, less what earlier queries have taken. -/
structure Answered.Lawful (entries : Array α) (earlier : List Answered) (answered : Answered) :
    Prop where
  hit_iff : answered.report.isHit = true ↔
    (∃ entry ∈ entries, key entry = answered.query.sought) ∧
      ∀ past ∈ earlier, ¬past.Consumes answered.query.sought
  taken : ∀ position, answered.report = .taken (some position) →
    keyAt? entries position = some answered.query.sought ∧ answered.after = position + 1
  seen : answered.report = .seen true →
    keyAt? entries answered.after = some answered.query.sought
  missed : answered.report.isHit = false → ∀ position (inside : position < entries.size),
    position < answered.after ↔ key entries[position] ≤ answered.query.sought
  forward : answered.before ≤ answered.after
  within : answered.after ≤ entries.size

theorem keyAt?_eq_some_iff {entries : Array α} {position sought : Nat} :
    keyAt? entries position = some sought ↔
      ∃ inside : position < entries.size, key entries[position] = sought := by
  rw [keyAt?, Option.map_eq_some_iff]
  constructor
  · rintro ⟨entry, stands, hit⟩
    obtain ⟨inside, rfl⟩ := Array.getElem?_eq_some_iff.mp stands
    exact ⟨inside, hit⟩
  · rintro ⟨inside, hit⟩
    exact ⟨_, Array.getElem?_eq_getElem inside, hit⟩

/-- An advance ends at the sought key if the key occurs and lies ahead. -/
theorem Splits.keyAt?_advance_iff {entries : Array α} {bound cursor : Nat}
    (splits : Splits entries bound cursor) (ascending : Ascending entries.toList) (sought : Nat) :
    keyAt? entries (Ordered.advance entries sought cursor) = some sought ↔
      (∃ entry ∈ entries, key entry = sought) ∧ bound ≤ sought := by
  have advanced := splits.advance ascending sought
  generalize Ordered.advance entries sought cursor = stop at advanced
  rw [keyAt?_eq_some_iff]
  constructor
  · rintro ⟨inside, hit⟩
    have ahead := (advanced.before_iff stop inside).not.mp (Nat.lt_irrefl _)
    exact ⟨⟨_, Array.getElem_mem inside, hit⟩, by omega⟩
  · rintro ⟨⟨entry, member, hit⟩, ahead⟩
    obtain ⟨position, inside, rfl⟩ := Array.getElem_of_mem member
    have reached := (advanced.before_iff position inside).not.mpr (by omega)
    rcases Nat.lt_or_eq_of_le (Nat.not_lt.mp reached) with earlier | rfl
    · -- The key at the stop would be smaller than the sought one, and so passed.
      have smaller := key_lt_of_lt ascending earlier inside
      have passed := (advanced.before_iff stop (by omega)).mpr (by omega)
      exact absurd passed (Nat.lt_irrefl _)
    · exact ⟨inside, hit⟩

/-- Where the cursor stands after some queries: of the keys that may still be sought, it has passed
exactly those that were consumed. -/
def StandsAfter (entries : Array α) (earlier : List Answered) (cursor : Nat) : Prop :=
  ∃ bound, Splits entries bound cursor ∧
    ∀ sought, (∀ past ∈ earlier, past.query.sought ≤ sought) →
      (∃ entry ∈ entries, key entry = sought) →
        (sought < bound ↔ ∃ past ∈ earlier, past.Consumes sought)

namespace StandsAfter
variable {entries : Array α} {earlier : List Answered} {cursor : Nat}

/-- A fresh cursor has passed nothing. -/
theorem start (entries : Array α) : StandsAfter entries [] 0 :=
  ⟨0, .zero entries, fun sought _ _ => by simp⟩

/-- An advance finds the keys that occur and were not consumed. -/
theorem hit_iff (stands : StandsAfter entries earlier cursor)
    (ascending : Ascending entries.toList) {sought : Nat}
    (rising : ∀ past ∈ earlier, past.query.sought ≤ sought) :
    keyAt? entries (advance entries sought cursor) = some sought ↔
      (∃ entry ∈ entries, key entry = sought) ∧ ∀ past ∈ earlier, ¬past.Consumes sought := by
  obtain ⟨bound, splits, passed⟩ := stands
  rw [splits.keyAt?_advance_iff ascending]
  refine and_congr_right fun occurs => ?_
  rw [← Nat.not_lt, passed sought rising occurs]
  simp

/-- An advance that finds nothing stops at the first key above the sought one. -/
theorem missed (stands : StandsAfter entries earlier cursor)
    (ascending : Ascending entries.toList) {sought : Nat}
    (rising : ∀ past ∈ earlier, past.query.sought ≤ sought)
    (miss : keyAt? entries (advance entries sought cursor) ≠ some sought) (position : Nat)
    (inside : position < entries.size) :
    position < advance entries sought cursor ↔ key entries[position] ≤ sought := by
  obtain ⟨bound, splits, passed⟩ := stands
  rw [Ne, splits.keyAt?_advance_iff ascending] at miss
  have occurs : ∃ entry ∈ entries, key entry = key entries[position] :=
    ⟨_, Array.getElem_mem inside, rfl⟩
  rw [(splits.advance ascending sought).before_iff position inside]
  constructor
  · intro below
    by_contra above
    -- A larger key has been passed only if it was sought before, and what is sought does not fall.
    obtain ⟨past, member, consumes⟩ := (passed (key entries[position])
      (fun past member => Nat.le_trans (rising past member) (by omega)) occurs).mp (by omega)
    have sought_before := rising past member
    rw [consumes.1] at sought_before
    exact above sought_before
  · intro within
    rcases Nat.lt_or_eq_of_le within with smaller | same
    · omega
    · have behind : ¬bound ≤ sought := fun ahead =>
        miss ⟨⟨_, Array.getElem_mem inside, same⟩, ahead⟩
      omega

/-- A query that consumes nothing leaves the cursor at the end of its advance. -/
theorem pass (stands : StandsAfter entries earlier cursor) (ascending : Ascending entries.toList)
    {answered : Answered} (keeps : ∀ sought, ¬answered.Consumes sought) :
    StandsAfter entries (earlier ++ [answered])
      (advance entries answered.query.sought cursor) := by
  obtain ⟨bound, splits, passed⟩ := stands
  refine ⟨_, splits.advance ascending answered.query.sought, fun sought rising occurs => ?_⟩
  have last := rising answered (by simp)
  have before := passed sought (fun past member => rising past (by simp [member])) occurs
  have same : sought < max bound answered.query.sought ↔ sought < bound := by omega
  rw [same, before]
  simp [keeps]

/-- A query that consumes the key under the cursor leaves the cursor behind it. -/
theorem consume (stands : StandsAfter entries earlier cursor)
    (ascending : Ascending entries.toList) {answered : Answered}
    (rising : ∀ past ∈ earlier, past.query.sought ≤ answered.query.sought)
    (consumes : answered.Consumes answered.query.sought)
    (hit : keyAt? entries (advance entries answered.query.sought cursor) =
      some answered.query.sought) :
    StandsAfter entries (earlier ++ [answered])
      (advance entries answered.query.sought cursor + 1) := by
  obtain ⟨bound, splits, -⟩ := stands
  have ahead := ((splits.keyAt?_advance_iff ascending _).mp hit).2
  have advanced := splits.advance ascending answered.query.sought
  rw [Nat.max_eq_right ahead] at advanced
  obtain ⟨inside, found⟩ := keyAt?_eq_some_iff.mp hit
  refine ⟨_, advanced.step ascending inside found, fun sought later occurs => ?_⟩
  have last := later answered (by simp)
  constructor
  · intro within
    obtain rfl : sought = answered.query.sought := by omega
    exact ⟨answered, by simp, consumes⟩
  · rintro ⟨past, member, took⟩
    have sought_eq : past.query.sought = sought := by rw [took.1, Query.sought]
    rcases List.mem_append.mp member with before | here
    · have := rising past before
      omega
    · obtain rfl := List.mem_singleton.mp here
      omega

theorem advance_le_size (stands : StandsAfter entries earlier cursor) (sought : Nat) :
    advance entries sought cursor ≤ entries.size := by
  obtain ⟨bound, splits, -⟩ := stands
  exact Ordered.advance_le_size entries sought cursor splits.within

end StandsAfter

/-- A query is answered lawfully, and the cursor stands ready for the next one. -/
theorem Query.answer_lawful {entries : Array α} (ascending : Ascending entries.toList)
    {earlier : List Answered} {cursor : Nat} (stands : StandsAfter entries earlier cursor)
    (query : Query) (rising : ∀ past ∈ earlier, past.query.sought ≤ query.sought) :
    ∃ answered, query.answer entries cursor = .ok answered ∧ answered.query = query ∧
      answered.before = cursor ∧ answered.Lawful entries earlier ∧
        StandsAfter entries (earlier ++ [answered]) answered.after := by
  have hit_iff := stands.hit_iff ascending rising
  have missed := stands.missed ascending rising
  have forward := le_advance entries query.sought cursor
  have within := stands.advance_le_size query.sought
  cases query with
  | seek sought =>
    simp only [Query.sought] at hit_iff missed forward within
    refine ⟨_, rfl, rfl, rfl, ⟨?_, ?_, ?_, ?_, forward, within⟩, stands.pass ascending ?_⟩
    · simpa [Ordered.seek, Report.isHit] using hit_iff
    · intro position reported
      cases reported
    · intro reported
      simpa [Ordered.seek] using reported
    · intro reported
      exact missed (by simpa [Ordered.seek, Report.isHit] using reported)
    · rintro other ⟨taken, -⟩
      cases taken
  | take sought =>
    simp only [Query.sought] at hit_iff missed forward within
    by_cases hit : keyAt? entries (advance entries sought cursor) = some sought
    · obtain ⟨inside, -⟩ := keyAt?_eq_some_iff.mp hit
      have answer_eq : (Query.take sought).answer entries cursor = .ok
          ⟨.take sought, .taken (some (advance entries sought cursor)), cursor,
            advance entries sought cursor + 1⟩ := by
        simp only [Query.answer, take_eq, if_pos hit]
        rfl
      refine ⟨_, answer_eq, rfl, rfl, ⟨?_, ?_, ?_, ?_, Nat.le_succ_of_le forward, inside⟩,
        stands.consume ascending rising ⟨rfl, rfl⟩ hit⟩
      · exact ⟨fun _ => hit_iff.mp hit, fun _ => rfl⟩
      · intro position reported
        obtain rfl := Option.some.inj (Report.taken.inj reported)
        exact ⟨hit, rfl⟩
      · intro reported
        cases reported
      · intro reported
        cases reported
    · have answer_eq : (Query.take sought).answer entries cursor = .ok
          ⟨.take sought, .taken none, cursor, advance entries sought cursor⟩ := by
        simp only [Query.answer, take_eq, if_neg hit]
        rfl
      refine ⟨_, answer_eq, rfl, rfl, ⟨?_, ?_, ?_, fun _ => missed hit, forward, within⟩,
        stands.pass ascending ?_⟩
      · exact ⟨fun reported => Bool.noConfusion reported, fun due => absurd (hit_iff.mpr due) hit⟩
      · intro position reported
        cases reported
      · intro reported
        cases reported
      · rintro other ⟨-, hits⟩
        cases hits

/-- Behind earlier answers and from where they left the cursor, each answer is lawful and begins
where the one before it ends. -/
def LawfulFrom (entries : Array α) : List Answered → Nat → List Answered → Prop
  | _, _, [] => True
  | earlier, cursor, answered :: rest =>
      answered.before = cursor ∧ answered.Lawful entries earlier ∧
        LawfulFrom entries (earlier ++ [answered]) answered.after rest

/-- Queries whose keys do not fall are answered lawfully behind others. -/
theorem StandsAfter.answers_lawfulFrom {entries : Array α} (ascending : Ascending entries.toList)
    {queries : List Query}
    (rising : queries.Pairwise fun first second => first.sought ≤ second.sought)
    {earlier : List Answered} {cursor : Nat} (stands : StandsAfter entries earlier cursor)
    (beyond : ∀ past ∈ earlier, ∀ query ∈ queries, past.query.sought ≤ query.sought) :
    ∃ answered, answers entries queries cursor = .ok answered ∧
      answered.map Answered.query = queries ∧ LawfulFrom entries earlier cursor answered := by
  induction queries generalizing earlier cursor with
  | nil => exact ⟨[], rfl, rfl, trivial⟩
  | cons query queries ih =>
    obtain ⟨first_le, rest_rising⟩ := List.pairwise_cons.mp rising
    obtain ⟨answered, answer_eq, asked, before, lawful, after⟩ :=
      query.answer_lawful ascending stands fun past member => beyond past member query (by simp)
    obtain ⟨rest, rest_eq, rest_asked, rest_lawful⟩ := ih rest_rising after
      (fun past member other other_mem => by
        rcases List.mem_append.mp member with earlier_mem | here
        · exact beyond past earlier_mem other (List.mem_cons_of_mem _ other_mem)
        · obtain rfl := List.mem_singleton.mp here
          rw [asked]
          exact first_le other other_mem)
    refine ⟨answered :: rest, ?_, ?_, before, lawful, rest_lawful⟩
    · simp only [answers, answer_eq, rest_eq, bind, Except.bind, pure, Except.pure]
    · rw [List.map_cons, asked, rest_asked]

/-- Queries whose keys do not fall, on one fresh cursor over an ascending array, are all answered
lawfully. -/
theorem answers_lawful (entries : Array α) (queries : List Query)
    (ascending : Ascending entries.toList)
    (rising : queries.Pairwise fun first second => first.sought ≤ second.sought) :
    ∃ answered, answers entries queries 0 = .ok answered ∧
      answered.map Answered.query = queries ∧ LawfulFrom entries [] 0 answered :=
  (StandsAfter.start entries).answers_lawfulFrom ascending rising (by simp)

end Answers

/-- A key is seen twice, then taken, and then no longer found; one that is missing lies between two
others. -/
theorem answers_lawful_sample :
    Ascending #[2, 5, 9].toList ∧
    [Query.seek 5, .seek 5, .take 5, .seek 5, .take 6, .take 9].Pairwise
      (fun first second => first.sought ≤ second.sought) ∧
    answers #[2, 5, 9] [.seek 5, .seek 5, .take 5, .seek 5, .take 6, .take 9] 0 = .ok
      [⟨.seek 5, .seen true, 0, 1⟩, ⟨.seek 5, .seen true, 1, 1⟩,
        ⟨.take 5, .taken (some 1), 1, 2⟩, ⟨.seek 5, .seen false, 2, 2⟩,
        ⟨.take 6, .taken none, 2, 2⟩, ⟨.take 9, .taken (some 2), 2, 3⟩] ∧
    ∃ answered, answers #[2, 5, 9] [.seek 5, .seek 5, .take 5, .seek 5, .take 6, .take 9] 0 =
        .ok answered ∧
      answered.map Answered.query = [.seek 5, .seek 5, .take 5, .seek 5, .take 6, .take 9] ∧
      LawfulFrom #[2, 5, 9] [] 0 answered := by
  have ascending : Ascending #[2, 5, 9].toList := by decide
  have rising : [Query.seek 5, .seek 5, .take 5, .seek 5, .take 6, .take 9].Pairwise
      (fun first second => first.sought ≤ second.sought) := by decide
  exact ⟨ascending, rising, by decide +kernel, answers_lawful _ _ ascending rising⟩

end BehaviorTree.Ordered
