import BehaviorTree.Proofs.Toml.Quoted
import BehaviorTree.Proofs.Toml.Scalar
import BehaviorTree.Toml.Reader

namespace BehaviorTree.Toml

/-! ## Keys -/

/-- A name that needs no quotation marks as a key. -/
def isBare (name : List Char) : Bool := !name.isEmpty && name.all isBareKey

theorem ne_of_isBareKey {char other : Char} (bare : isBareKey char = true)
    (special : isBareKey other = false) : char ≠ other := by
  rintro rfl
  rw [bare] at special
  cases special

theorem isBare_cons {name : List Char} (bare : isBare name = true) :
    ∃ first others, name = first :: others ∧ isBareKey first = true := by
  rw [isBare, Bool.and_eq_true] at bare
  cases name with
  | nil => exact absurd bare.1 (by decide)
  | cons first others => exact ⟨first, others, rfl, List.all_eq_true.mp bare.2 _ List.mem_cons_self⟩

/-- No blanks stand in front of a name. -/
theorem skipBlanks_bare {name : List Char} (bare : isBare name = true) (input : List Char) :
    skipBlanks (name ++ input) = name ++ input := by
  obtain ⟨first, others, rfl, isKey⟩ := isBare_cons bare
  have noSpace := ne_of_isBareKey isKey (show isBareKey ' ' = false by decide)
  have noTab := ne_of_isBareKey isKey (show isBareKey '\t' = false by decide)
  simp [skipBlanks, Quoted.isBlank, noSpace, noTab]

theorem simpleKey?_bare {name : List Char} (bare : isBare name = true) {next : Char}
    (ends : isBareKey next = false) (rest : List Char) :
    simpleKey? (name ++ next :: rest) = some (String.ofList name, next :: rest) := by
  have all : ∀ char ∈ name, isBareKey char = true := by
    rw [isBare, Bool.and_eq_true] at bare
    exact List.all_eq_true.mp bare.2
  have found : (name ++ next :: rest).takeWhile isBareKey = name := by
    rw [List.takeWhile_append_of_pos all, List.takeWhile_cons_of_neg (by simp [ends]),
      List.append_nil]
  have left : (name ++ next :: rest).dropWhile isBareKey = next :: rest := by
    rw [List.dropWhile_append_of_pos all, List.dropWhile_cons_of_neg (by simp [ends])]
  obtain ⟨first, others, rfl, isKey⟩ := isBare_cons bare
  have noDouble := ne_of_isBareKey isKey (show isBareKey '"' = false by decide)
  have noSingle := ne_of_isBareKey isKey (show isBareKey '\'' = false by decide)
  rw [simpleKey?.eq_def]
  split
  · next same => exact absurd (List.cons.inj same).1 noDouble
  · next same => exact absurd (List.cons.inj same).1 noSingle
  · rw [found, left]

/-- A bare name is a key without a path. -/
theorem key?_bare {name : List Char} (bare : isBare name = true) {next mark : Char}
    {input rest : List Char} (ends : isBareKey next = false)
    (skipped : skipBlanks (next :: input) = mark :: rest) (noDot : mark ≠ '.') :
    key? (name ++ next :: input) = some (([], String.ofList name), mark :: rest) := by
  -- One part of a key is far below the limit, so one step of the reading is enough.
  change keyParts? (78 + 1) _ = _
  rw [keyParts?, skipBlanks_bare bare, simpleKey?_bare bare ends, Option.bind_eq_bind,
    Option.bind_some]
  dsimp only
  rw [skipped]
  split
  · next same => exact absurd (List.cons.inj same).1 noDot
  · rfl

/-! ## Values -/

/-- What a value is written as, to the end of a line. -/
structure Writes (written : List Char) (value : Toml) : Prop where
  begins : ∃ first behind, written = first :: behind ∧ Quoted.isBlank first = false
  reads : ∀ rest, value? (depthLimit - 1) (written ++ '\n' :: rest) = some (value, '\n' :: rest)

theorem writes_text (text : List Char) :
    Writes (Quoted.writeIn (Quoted.formOf text) text) (.text (String.ofList text)) := by
  obtain ⟨mark, behind, written, isMark⟩ := Quoted.writeIn_head (Quoted.formOf text) text
  refine ⟨⟨mark, behind, written, ?_⟩, fun rest => ?_⟩
  · rcases isMark with rfl | rfl <;> rfl
  · have read : quoted? (Quoted.writeIn (Quoted.formOf text) text ++ '\n' :: rest) =
        some (.text (String.ofList text), '\n' :: rest) := by
      rw [quoted?, Quoted.read_formOf text (by simp) (by simp)]
      rfl
    rw [← read, written]
    rcases isMark with rfl | rfl <;> rfl

theorem writes_number {value : Nat} (small : value < 0x8000000000000000) :
    Writes (Nat.toDigits 10 value) (.integer value) := by
  have numeral := Scalar.numeral_toDigits value
  refine ⟨?_, fun rest => ?_⟩
  · obtain ⟨first, others, written, -⟩ := numeral.begins
    refine ⟨first, others, written, ?_⟩
    have isDigit := numeral.decimal first (written ▸ List.mem_cons_self)
    have noSpace : first ≠ ' ' := fun same => absurd isDigit (by rw [same]; decide)
    have noTab : first ≠ '\t' := fun same => absurd isDigit (by rw [same]; decide)
    simp [Quoted.isBlank, noSpace, noTab]
  · rw [← Scalar.read_toDigits small rest]
    have noDouble := numeral.head_ne rest '"' (by decide)
    have noSingle := numeral.head_ne rest '\'' (by decide)
    have noBracket := numeral.head_ne rest '[' (by decide)
    have noBrace := numeral.head_ne rest '\x7b' (by decide)
    rw [value?.eq_def]
    split <;> simp_all

/-! ## Lines -/

/-- A line with a key and a value. -/
def line (name written : List Char) : List Char := name ++ [' ', '=', ' '] ++ written ++ ['\n']

theorem keyValue?_line {name written : List Char} {value : Toml} (bare : isBare name = true)
    (writes : Writes written value) (rest : List Char) :
    keyValue? (line name written ++ rest) =
      some (.entry [] (String.ofList name) value, rest) := by
  obtain ⟨first, behind, begins, noBlank⟩ := writes.begins
  have skipped : skipBlanks (' ' :: (written ++ '\n' :: rest)) = written ++ '\n' :: rest := by
    rw [begins, skipBlanks, List.dropWhile_cons_of_pos (by decide), List.cons_append,
      List.dropWhile_cons_of_neg (by simp [noBlank])]
  have equals : equals? ('=' :: ' ' :: (written ++ '\n' :: rest)) =
      some (written ++ '\n' :: rest) := congrArg some skipped
  have key : key? (name ++ ' ' :: '=' :: ' ' :: (written ++ '\n' :: rest)) =
      some (([], String.ofList name), '=' :: ' ' :: (written ++ '\n' :: rest)) :=
    key?_bare bare (by decide) rfl (by decide)
  have shape : line name written ++ rest =
      name ++ ' ' :: '=' :: ' ' :: (written ++ '\n' :: rest) := by
    simp [line]
  rw [shape, keyValue?, key]
  simp only [Option.bind_eq_bind, Option.bind_some, equals, writes.reads]
  rfl

theorem header?_line {name : List Char} (bare : isBare name = true) (rest : List Char) :
    header? (name ++ ']' :: '\n' :: rest) = some (.header [] (String.ofList name), rest) := by
  have key : key? (name ++ ']' :: '\n' :: rest) =
      some (([], String.ofList name), ']' :: '\n' :: rest) :=
    key?_bare bare (by decide) rfl (by decide)
  rw [header?, key]
  rfl

/-! ## Documents -/

/-- What starts with a key is an entry, and other statements follow it. -/
theorem statements?_entry {fuel : Nat} {first : Char} {others rest : List Char}
    {statement : Statement} (isKey : isBareKey first = true)
    (read : keyValue? (first :: others) = some (statement, rest)) :
    statements? (fuel + 1) (first :: others) = (statements? fuel rest).map (statement :: ·) := by
  have single : isBare [first] = true := by simp [isBare, isKey]
  have skipped : skipBlanks (first :: others) = first :: others := skipBlanks_bare single others
  have noComment := ne_of_isBareKey isKey (show isBareKey '#' = false by decide)
  have noEnd := ne_of_isBareKey isKey (show isBareKey '\n' = false by decide)
  have noReturn := ne_of_isBareKey isKey (show isBareKey '\r' = false by decide)
  have noBracket := ne_of_isBareKey isKey (show isBareKey '[' = false by decide)
  rw [statements?]
  dsimp only
  rw [skipped]
  split
  · next same => cases same
  · next same => exact absurd (List.cons.inj same).1 noComment
  · next same => exact absurd (List.cons.inj same).1 noEnd
  · next same => exact absurd (List.cons.inj same).1 noReturn
  · next same => exact absurd (List.cons.inj same).1 noBracket
  · next same => exact absurd (List.cons.inj same).1 noBracket
  · rw [read, Option.bind_eq_bind, Option.bind_some]
    cases statements? fuel rest <;> rfl

/-- What starts with one bracket is a header. -/
theorem statements?_header {fuel : Nat} {first : Char} {others rest : List Char}
    {statement : Statement} (isKey : isBareKey first = true)
    (read : header? (first :: others) = some (statement, rest)) :
    statements? (fuel + 1) ('[' :: first :: others) =
      (statements? fuel rest).map (statement :: ·) := by
  have noBracket := ne_of_isBareKey isKey (show isBareKey '[' = false by decide)
  have skipped : skipBlanks ('[' :: first :: others) = '[' :: first :: others := rfl
  rw [statements?]
  dsimp only
  rw [skipped]
  split
  · next same => cases same
  · next same => exact absurd (List.cons.inj same).1 (by decide)
  · next same => exact absurd (List.cons.inj same).1 (by decide)
  · next same => exact absurd (List.cons.inj same).1 (by decide)
  · next same => exact absurd (List.cons.inj (List.cons.inj same).2).1 noBracket
  · next same =>
    obtain rfl := (List.cons.inj same).2
    rw [read, Option.bind_eq_bind, Option.bind_some]
    cases statements? fuel rest <;> rfl
  · next noHeader => exact absurd rfl (noHeader _)

/-- A text is read as some statements, with any fuel that is more than its length. -/
def Reads (text : List Char) (found : List Statement) : Prop :=
  ∀ fuel, text.length < fuel → statements? fuel text = some found

namespace Reads
variable {name written rest : List Char} {found : List Statement}

theorem nil : Reads [] [] := by
  intro fuel enough
  obtain ⟨fuel, rfl⟩ := Nat.exists_eq_add_one_of_ne_zero (Nat.ne_of_gt enough)
  rfl

/-- A text that takes one step more is longer than what is left of it. -/
theorem step {text : List Char} {later : List Statement} (reads : Reads rest found)
    (shorter : rest.length < text.length)
    (steps : ∀ fuel, statements? fuel rest = some found →
      statements? (fuel + 1) text = some later) : Reads text later := by
  intro fuel enough
  obtain ⟨fuel, rfl⟩ := Nat.exists_eq_add_one_of_ne_zero (Nat.ne_of_gt (Nat.zero_lt_of_lt enough))
  exact steps fuel (reads fuel (by omega))

/-- An empty line says nothing. -/
theorem blank (reads : Reads rest found) : Reads ('\n' :: rest) found :=
  reads.step (Nat.lt_succ_self _) fun _ left => left

theorem entry {value : Toml} (bare : isBare name = true) (writes : Writes written value)
    (reads : Reads rest found) :
    Reads (line name written ++ rest) (.entry [] (String.ofList name) value :: found) := by
  have read := keyValue?_line bare writes rest
  have shorter : rest.length < (line name written ++ rest).length := by
    simp only [line, List.length_append, List.length_cons]
    omega
  refine reads.step shorter fun fuel left => ?_
  obtain ⟨first, others, rfl, isKey⟩ := isBare_cons bare
  exact (statements?_entry isKey read).trans (by rw [left]; rfl)

theorem header (bare : isBare name = true) (reads : Reads rest found) :
    Reads ('[' :: (name ++ ']' :: '\n' :: rest)) (.header [] (String.ofList name) :: found) := by
  have read := header?_line bare rest
  have shorter : rest.length < ('[' :: (name ++ ']' :: '\n' :: rest)).length := by
    simp only [List.length_append, List.length_cons]
    omega
  refine reads.step shorter fun fuel left => ?_
  obtain ⟨first, others, rfl, isKey⟩ := isBare_cons bare
  exact (statements?_header isKey read).trans (by rw [left]; rfl)

end Reads

/-! ## Tables -/

namespace Entries
variable {key : String} {entries : Entries}

/-- A key that is not there yet is put behind the others. -/
theorem alter?_fresh (fresh : key ∉ entries.map Prod.fst) (change : Option Toml → Option Toml) :
    Entries.alter? key change entries =
      (change none).map fun value => entries ++ [(key, value)] := by
  induction entries with
  | nil =>
    rw [Entries.alter?]
    cases change none <;> rfl
  | cons entry entries ih =>
    obtain ⟨other, first⟩ := entry
    rw [List.map_cons, List.mem_cons, not_or] at fresh
    rw [Entries.alter?, if_neg (Ne.symm fresh.1), ih fresh.2]
    cases change none <;> rfl

/-- The last value is changed where it stands. -/
theorem alter?_last (fresh : key ∉ entries.map Prod.fst) (value : Toml)
    (change : Option Toml → Option Toml) :
    Entries.alter? key change (entries ++ [(key, value)]) =
      (change (some value)).map fun value => entries ++ [(key, value)] := by
  induction entries with
  | nil =>
    rw [List.nil_append, Entries.alter?, if_pos rfl]
    cases change (some value) <;> rfl
  | cons entry entries ih =>
    obtain ⟨other, first⟩ := entry
    rw [List.map_cons, List.mem_cons, not_or] at fresh
    rw [List.cons_append, Entries.alter?, if_neg (Ne.symm fresh.1), ih fresh.2]
    cases change (some value) <;> rfl

end Entries

/-- A statement for each entry of a table. -/
def statementsOf (entries : Entries) : List Statement :=
  entries.map fun (key, value) => .entry [] key value

/-- A header starts a table behind the other entries. -/
theorem add?_header {key : String} {entries : Entries} (fresh : key ∉ entries.map Prod.fst)
    (current : List String) :
    Draft.add? ⟨entries, current⟩ (.header [] key) =
      some ⟨entries ++ [(key, .table .header [])], [key]⟩ := by
  rw [Draft.add?, declare?, alterAt?, Entries.alter?_fresh fresh]
  rfl

/-- An entry goes to the end of the table of the latest header. -/
theorem add?_entry {table key : String} {entries inner : Entries} (value : Toml)
    (apart : table ∉ entries.map Prod.fst) (fresh : key ∉ inner.map Prod.fst) :
    Draft.add? ⟨entries ++ [(table, .table .header inner)], [table]⟩ (.entry [] key value) =
      some ⟨entries ++ [(table, .table .header (inner ++ [(key, value)]))], [table]⟩ := by
  have inserted : insert? [] key value .header inner = some (inner ++ [(key, value)]) := by
    rw [insert?, alterAt?, if_neg (fun path => path.1 rfl), Entries.alter?_fresh fresh]
    rfl
  rw [Draft.add?, alterAt?, Entries.alter?_last apart]
  simp only [Approach.header, alterAt?, inserted]
  rfl

/-- Entries behind a header are the table that it names. -/
theorem foldlM_entries {table : String} {entries : Entries} (apart : table ∉ entries.map Prod.fst)
    (inner added : Entries) (distinct : ((inner ++ added).map Prod.fst).Nodup) :
    (statementsOf added).foldlM Draft.add? ⟨entries ++ [(table, .table .header inner)], [table]⟩ =
      some ⟨entries ++ [(table, .table .header (inner ++ added))], [table]⟩ := by
  induction added generalizing inner with
  | nil => rw [List.append_nil]; rfl
  | cons entry added ih =>
    obtain ⟨key, value⟩ := entry
    have fresh : key ∉ inner.map Prod.fst := by
      rw [List.map_append, List.map_cons] at distinct
      exact fun member => (List.nodup_append.mp distinct).2.2 key member key List.mem_cons_self rfl
    have together : inner ++ [(key, value)] ++ added = inner ++ (key, value) :: added := by
      rw [List.append_assoc, List.singleton_append]
    rw [statementsOf, List.map_cons, List.foldlM_cons, add?_entry value apart fresh, Option.bind_eq_bind,
      Option.bind_some, ← together]
    exact ih (inner ++ [(key, value)]) (by rwa [together])

end BehaviorTree.Toml
