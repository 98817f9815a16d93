import Mathlib.Tactic.Linarith
import BehaviorTree.Proofs.Storage.Columns

namespace BehaviorTree
open Ordered

/-- Entries list a finite map: they are those of the map, in ascending order. -/
def Lists {ν : Type} (map : Std.TreeMap Nat ν) (entries : List (Entry ν)) : Prop :=
  map.toList = entries.map fun entry => (entry.atom, entry.value)

namespace Lists
variable {ν : Type} {map : Std.TreeMap Nat ν} {entries : List (Entry ν)}

theorem ascending (lists : Lists map entries) : Ascending entries := by
  have ordered := map.ordered_keys_toList
  rw [lists] at ordered
  exact (List.pairwise_map.mp ordered).imp Nat.compare_eq_lt.mp

theorem size (lists : Lists map entries) : map.size = entries.length := by
  rw [← Std.TreeMap.length_toList, lists, List.length_map]

theorem getElem?_eq_some_iff (lists : Lists map entries) (atom : Nat) (value : ν) :
    map[atom]? = some value ↔ ⟨atom, value⟩ ∈ entries := by
  rw [← Std.TreeMap.mem_toList_iff_getElem?_eq_some, lists, List.mem_map]
  constructor
  · rintro ⟨entry, member, same⟩
    obtain ⟨rfl, rfl⟩ := Prod.mk.inj same
    exact member
  · intro member
    exact ⟨_, member, rfl⟩

/-- Ascending entries list the map that has their values. -/
theorem of_values (ascending : Ascending entries)
    (values : ∀ atom value, map[atom]? = some value ↔ ⟨atom, value⟩ ∈ entries) :
    Lists map entries := by
  have ordered : (entries.map fun entry => (entry.atom, entry.value)).Pairwise
      fun first second => first.1 < second.1 := List.pairwise_map.mpr ascending
  have map_ordered : map.toList.Pairwise fun first second => first.1 < second.1 :=
    map.ordered_keys_toList.imp Nat.compare_eq_lt.mp
  have distinct {pairs : List (Nat × ν)}
      (rising : pairs.Pairwise fun first second => first.1 < second.1) : pairs.Nodup := by
    refine rising.imp fun {first second} below same => ?_
    rw [same] at below
    exact Nat.lt_irrefl _ below
  have permuted : map.toList.Perm (entries.map fun entry => (entry.atom, entry.value)) := by
    rw [List.perm_ext_iff_of_nodup (distinct map_ordered) (distinct ordered)]
    rintro ⟨atom, value⟩
    rw [Std.TreeMap.mem_toList_iff_getElem?_eq_some, values, List.mem_map]
    constructor
    · intro member
      exact ⟨_, member, rfl⟩
    · rintro ⟨entry, member, same⟩
      obtain ⟨rfl, rfl⟩ := Prod.mk.inj same
      exact member
  exact permuted.eq_of_pairwise
    (fun _ _ _ _ below above => absurd below (Nat.lt_asymm above)) map_ordered ordered

end Lists

namespace Parts
variable {ν : Type} {map : Std.TreeMap Nat ν} {entries lower upper : List (Entry ν)} {atom : Nat}
  {known : Option ν}

/-- The map that results when an atom gets another value, or none, is listed with that value between
the parts. -/
theorem lists (parts : Parts entries atom lower known upper) (lists : Lists map entries)
    {after : Std.TreeMap Nat ν} (other : Option ν)
    (changed : ∀ place, after[place]? = if atom = place then other else map[place]?) :
    Lists after (lower ++ ((other.map (Entry.mk atom)).toList ++ upper)) := by
  have replaced := parts.replace other
  refine .of_values (parts.ascending lists.ascending other) fun place value => ?_
  rw [changed]
  by_cases same : atom = place
  · subst same
    rw [if_pos rfl, replaced.mem_iff]
  · rw [if_neg same, lists.getElem?_eq_some_iff, parts.mem_iff_of_ne same,
      replaced.mem_iff_of_ne same]

/-- The map has for the atom what stands between the parts. -/
theorem getElem? (parts : Parts entries atom lower known upper) (lists : Lists map entries) :
    map[atom]? = known := by
  apply Option.ext
  intro value
  rw [lists.getElem?_eq_some_iff, parts.mem_iff]

end Parts

namespace SparseStates
variable {ν : Type} {states : SparseStates ν}

/-- Sparse states as a finite map. -/
def toMap (states : SparseStates ν) : Std.TreeMap Nat ν :=
  .ofList (states.entries.toList.map fun entry => (entry.atom, entry.value))

theorem lists_toMap (ascending : Ascending states.entries.toList) :
    Lists states.toMap states.entries.toList := by
  let pairs := states.entries.toList.map fun entry => (entry.atom, entry.value)
  have distinct : pairs.Pairwise fun first second => ¬compare first.1 second.1 = .eq := by
    refine List.pairwise_map.mpr (ascending.imp fun {first second} below same => ?_)
    exact Nat.ne_of_lt below (Nat.compare_eq_eq.mp same)
  have read {atom : Nat} {value : ν} (member : ⟨atom, value⟩ ∈ states.entries.toList) :
      states.toMap[atom]? = some value :=
    Std.TreeMap.getElem?_ofList_of_mem (Nat.compare_eq_eq.mpr rfl) distinct
      (List.mem_map_of_mem member)
  refine .of_values ascending fun atom value => ⟨fun held => ?_, read⟩
  cases known : (pairs.map Prod.fst).contains atom with
  | false =>
    have none : states.toMap[atom]? = none :=
      Std.TreeMap.getElem?_ofList_of_contains_eq_false known
    cases held.symm.trans none
  | true =>
    simp only [pairs, List.map_map, List.contains_iff_mem, List.mem_map, Function.comp_apply]
      at known
    obtain ⟨entry, member, rfl⟩ := known
    obtain rfl := Option.some.inj ((read member).symm.trans held)
    exact member

/-- What a search finds is what the map has that the entries list. -/
theorem find?_of_lists {map : Std.TreeMap Nat ν} (lists : Lists map states.entries.toList)
    (atom : Nat) : states.find? atom = map[atom]? := by
  apply Option.ext
  intro value
  rw [find?_eq_some_iff lists.ascending, lists.getElem?_eq_some_iff]

end SparseStates

/-- A call from outside that changes what an actor has outstanding. -/
inductive StatusCall where
  | merge (atom : Nat) (status : Status)
  | remove (atom : Nat)

/-- What such a call answers. -/
inductive StatusAnswer where
  | merged
  | refused (error : ActorError)
  | removed (known : Bool)
  deriving DecidableEq

namespace StatusCall

/-- An actor takes a call. -/
def onActor (actor : Actor) : StatusCall → StatusAnswer × Actor
  | merge atom status =>
      match actor.merge atom status with
      | .ok after => (.merged, after)
      | .error error => (.refused error, actor)
  | remove atom =>
      let (known, after) := actor.remove atom
      (.removed known, after)

/-- The columns that store what an actor has outstanding take a call. -/
def onColumns (actor : Nat) (columns : Columns Status) :
    StatusCall → StatusAnswer × Columns Status
  | merge atom status =>
      match columns.merge? atom status with
      | some after => (.merged, after)
      | none => (.refused (.noRoom actor columns.count atom), columns)
  | remove atom =>
      match columns.remove? atom with
      | some after => (.removed true, after)
      | none => (.removed false, columns)

/-- A finite map with a limited number of entries takes a call. -/
def onMap (actor limit : Nat) (map : Std.TreeMap Nat Status) :
    StatusCall → StatusAnswer × Std.TreeMap Nat Status
  | merge atom status =>
      if map.contains atom ∨ map.size < limit then (.merged, map.insert atom status)
      else (.refused (.noRoom actor map.size atom), map)
  | remove atom => (.removed (map.contains atom), map.erase atom)

variable {σ τ : Type}

/-- Calls are taken one after the other. -/
def takeAll (serve : σ → StatusCall → StatusAnswer × σ) :
    List StatusCall → σ → List StatusAnswer × σ
  | [], state => ([], state)
  | call :: calls, state =>
      let (answer, after) := serve state call
      let (answers, last) := takeAll serve calls after
      (answer :: answers, last)

/-- Where each call is answered alike and keeps two states related, so do many. -/
theorem takeAll_related {serve : σ → StatusCall → StatusAnswer × σ}
    {other : τ → StatusCall → StatusAnswer × τ} {related : σ → τ → Prop}
    (step : ∀ first second call, related first second →
      (serve first call).1 = (other second call).1 ∧
        related (serve first call).2 (other second call).2)
    (calls : List StatusCall) {first : σ} {second : τ} (start : related first second) :
    (takeAll serve calls first).1 = (takeAll other calls second).1 ∧
      related (takeAll serve calls first).2 (takeAll other calls second).2 := by
  induction calls generalizing first second with
  | nil => exact ⟨rfl, start⟩
  | cons call calls ih =>
    obtain ⟨answered, after⟩ := step first second call start
    obtain ⟨rest, last⟩ := ih after
    exact ⟨congrArg₂ List.cons answered rest, last⟩

end StatusCall

/-- Of an actor nothing has changed but what it has outstanding, which a finite map lists in the
same room. -/
structure Actor.Holds (before actor : Actor) (map : Std.TreeMap Nat Status) : Prop where
  lists : Lists map actor.outstanding.entries.toList
  capacity : actor.outstanding.capacity = before.outstanding.capacity
  rest : { actor with outstanding := before.outstanding } = before

namespace Actor.Holds
variable {before actor : Actor} {map : Std.TreeMap Nat Status}

theorem count (holds : before.Holds actor map) : map.size = actor.outstanding.count := by
  rw [holds.lists.size, Array.length_toList]
  rfl

/-- Another listing in the same room keeps the rest. -/
theorem change (holds : before.Holds actor map) {outstanding : SparseStates Status}
    {after : Std.TreeMap Nat Status} (lists : Lists after outstanding.entries.toList)
    (capacity : outstanding.capacity = actor.outstanding.capacity) :
    before.Holds { actor with outstanding } after :=
  ⟨lists, capacity.trans holds.capacity, holds.rest⟩

theorem id (holds : before.Holds actor map) : actor.id = before.id := by
  rw [← holds.rest]

/-- A call is answered as by the map, and the actor holds what the map then has. -/
theorem step (holds : before.Holds actor map) (call : StatusCall) :
    (call.onActor actor).1 = (call.onMap before.id before.outstanding.capacity map).1 ∧
      before.Holds (call.onActor actor).2
        (call.onMap before.id before.outstanding.capacity map).2 := by
  have known_iff {atom : Nat} {known : Option Status} (held : map[atom]? = known) :
      map.contains atom = known.isSome := by
    rw [Std.TreeMap.contains_eq_isSome_getElem?, held]
  cases call with
  | merge atom status =>
    obtain ⟨lower, known, upper, parts, place⟩ :=
      SparseStates.exists_parts holds.lists.ascending atom
    have contains := known_iff (parts.getElem? holds.lists)
    by_cases room : known.isSome ∨ actor.outstanding.count < actor.outstanding.capacity
    · obtain ⟨merged, merge_eq, capacity, written⟩ :=
        SparseStates.merge?_parts parts place room status
      have lists : Lists (map.insert atom status) merged.entries.toList := by
        rw [written]
        refine parts.lists holds.lists (some status) fun other => ?_
        rw [Std.TreeMap.getElem?_insert]
        exact if_congr Nat.compare_eq_eq rfl rfl
      have allowed : map.contains atom ∨ map.size < before.outstanding.capacity := by
        rw [contains, holds.count, ← holds.capacity]
        exact room
      simp only [StatusCall.onActor, StatusCall.onMap, Actor.merge, merge_eq, if_pos allowed]
      exact ⟨trivial, holds.change lists capacity⟩
    · obtain ⟨unknown, full⟩ := not_or.mp room
      have refused : ¬(map.contains atom ∨ map.size < before.outstanding.capacity) := by
        rw [contains, holds.count, ← holds.capacity]
        exact room
      rw [if_neg unknown] at place
      simp only [StatusCall.onActor, StatusCall.onMap, Actor.merge,
        SparseStates.merge?_full place full, if_neg refused, holds.id]
      exact ⟨by rw [holds.count], holds⟩
  | remove atom =>
    obtain ⟨lower, known, upper, parts, place⟩ :=
      SparseStates.exists_parts holds.lists.ascending atom
    have contains := known_iff (parts.getElem? holds.lists)
    have erased : Lists (map.erase atom) (lower ++ upper) := by
      refine parts.lists holds.lists none fun other => ?_
      rw [Std.TreeMap.getElem?_erase]
      exact if_congr Nat.compare_eq_eq rfl rfl
    cases known with
    | some old =>
      obtain ⟨removed, remove_eq, capacity, written⟩ := SparseStates.remove?_parts parts place
      rw [← written] at erased
      simp only [StatusCall.onActor, StatusCall.onMap, Actor.remove, remove_eq, contains]
      exact ⟨rfl, holds.change erased capacity⟩
    | none =>
      have whole : lower ++ upper = actor.outstanding.entries.toList := parts.whole.symm
      have absent : actor.outstanding.remove? atom = none := by
        simp only [SparseStates.remove?, place]
        rfl
      rw [whole] at erased
      simp only [StatusCall.onActor, StatusCall.onMap, Actor.remove, absent, contains]
      exact ⟨rfl, holds.change erased rfl⟩

end Actor.Holds

/-- The columns of an actor take a call as the actor does. -/
theorem StatusCall.onColumns_eq (call : StatusCall) (actor : Actor) :
    call.onColumns actor.id actor.outstanding.columns =
      ((call.onActor actor).1, (call.onActor actor).2.outstanding.columns) := by
  cases call with
  | merge atom status =>
    simp only [onColumns, onActor, Actor.merge, SparseStates.columns_merge?]
    cases actor.outstanding.merge? atom status <;> rfl
  | remove atom =>
    simp only [onColumns, onActor, Actor.remove, SparseStates.columns_remove?]
    cases actor.outstanding.remove? atom <;> rfl

namespace Actor

/-- After some calls an actor, and the columns that store what it has outstanding, are as a finite
map with a limited number of entries would have them, and nothing else of the actor has changed. -/
structure ServesMap (actor : Actor) (calls : List StatusCall) (answers : List StatusAnswer)
    (map : Std.TreeMap Nat Status) (after : Actor) : Prop where
  answered : StatusCall.takeAll StatusCall.onActor calls actor = (answers, after)
  expected : StatusCall.takeAll (StatusCall.onMap actor.id actor.outstanding.capacity) calls
    actor.outstanding.toMap = (answers, map)
  stored : StatusCall.takeAll (StatusCall.onColumns actor.id) calls actor.outstanding.columns =
    (answers, after.outstanding.columns)
  start : Lists actor.outstanding.toMap actor.outstanding.entries.toList
  lists : Lists map after.outstanding.entries.toList
  find? : ∀ atom, after.outstanding.find? atom = map[atom]?
  stored_find? : ∀ atom, after.outstanding.columns.find? atom = map[atom]?
  capacity : after.outstanding.capacity = actor.outstanding.capacity
  rest : { after with outstanding := actor.outstanding } = actor

/-- What an actor has outstanding is a finite map, whatever calls merge and remove entries. -/
theorem serves_map (actor : Actor) (calls : List StatusCall)
    (ascending : Ascending actor.outstanding.entries.toList) :
    ∃ answers map after, actor.ServesMap calls answers map after := by
  have start := SparseStates.lists_toMap ascending
  have before : actor.Holds actor actor.outstanding.toMap := ⟨start, rfl, rfl⟩
  obtain ⟨answered, holds⟩ := StatusCall.takeAll_related
    (fun first second call (holds : actor.Holds first second) => holds.step call) calls before
  have column_step : ∀ (columns : Columns Status) (other : Actor) (call : StatusCall),
      (columns = other.outstanding.columns ∧ ∃ map, actor.Holds other map) →
        (call.onColumns actor.id columns).1 = (call.onActor other).1 ∧
          (call.onColumns actor.id columns).2 = (call.onActor other).2.outstanding.columns ∧
            ∃ map, actor.Holds (call.onActor other).2 map := by
    rintro _ other call ⟨rfl, map, held⟩
    rw [← held.id, call.onColumns_eq]
    exact ⟨rfl, rfl, _, (held.step call).2⟩
  obtain ⟨stored, columns, -⟩ :=
    StatusCall.takeAll_related column_step calls ⟨rfl, _, before⟩
  have found := SparseStates.find?_of_lists holds.lists
  exact ⟨_, _, _, rfl, Prod.ext answered.symm rfl, Prod.ext stored columns, start, holds.lists,
    found, fun atom => (SparseStates.columns_find? _ atom).trans (found atom), holds.capacity,
    holds.rest⟩

end Actor

namespace Sample

/-- An actor with room for one more entry. -/
def remembering : Actor :=
  { Actor.withRoom 7 2 2 3 with
    outstanding := ⟨#[⟨3, .launch⟩, ⟨9, .running⟩], #[⟨0, .fail⟩]⟩ }

def statusCalls : List StatusCall :=
  [.merge 5 .running, .merge 4 .running, .merge 3 .success, .remove 9, .remove 9]

end Sample

namespace Actor

/-- An entry is inserted between two others, one is refused, one is replaced, and one removed. -/
theorem serves_map_sample :
    Ascending Sample.remembering.outstanding.entries.toList ∧
    (StatusCall.takeAll StatusCall.onActor Sample.statusCalls Sample.remembering).1 =
      [.merged, .refused (.noRoom 7 3 4), .merged, .removed true, .removed false] ∧
    ∃ answers map after, Sample.remembering.ServesMap Sample.statusCalls answers map after := by
  have ascending : Ascending Sample.remembering.outstanding.entries.toList := by decide
  exact ⟨ascending, by decide +kernel, Sample.remembering.serves_map Sample.statusCalls ascending⟩

end Actor

end BehaviorTree
