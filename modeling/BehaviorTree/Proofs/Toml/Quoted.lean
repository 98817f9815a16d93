import Mathlib.Tactic.SplitIfs
import BehaviorTree.Toml.Quoted

namespace BehaviorTree.Toml.Quoted

/-- What reads a string behind its opening marks. -/
abbrev Reader := List Char → Option (List Char × List Char)

/-! ## Escapes -/

theorem hexValue?_hexDigit : ∀ value < 16, Text.hexValue? (hexDigit value) = some value := by
  decide

theorem scalar?_toNat (char : Char) : Text.scalar? char.toNat = some char := by
  have valid : char.toNat.isValidChar := char.valid
  rw [Text.scalar?, if_pos valid, Char.ofNat_toNat]

/-- Control characters are among the first ones. -/
theorem toNat_lt_of_isControl {char : Char} (control : isControl char = true) :
    char.toNat < 256 := by
  simp only [isControl, Bool.or_eq_true, Bool.and_eq_true, decide_eq_true_eq, beq_iff_eq] at control
  rcases control with ⟨below, -⟩ | rfl
  · exact Nat.lt_trans (UInt32.lt_iff_toNat_lt.mp below) (by decide)
  · decide

/-- A character that is written as it is, is neither a backslash nor a control character. -/
theorem plain_of_escapeOf? {char : Char} (plain : escapeOf? char = none) :
    char ≠ '\\' ∧ isControl char = false := by
  unfold escapeOf? at plain
  split_ifs at plain
  simp_all

/-- An escape is a letter that stands for the character, or its code. -/
theorem escapeOf?_cases {char : Char} {written : List Char}
    (escaped : escapeOf? char = some written) :
    (∃ letter, written = ['\\', letter] ∧ escape? letter = some char) ∨
      written = ['\\', 'u', '0', '0', hexDigit (char.toNat / 16), hexDigit (char.toNat % 16)] ∧
        isControl char = true := by
  unfold escapeOf? at escaped
  split_ifs at escaped <;> obtain rfl := Option.some.inj escaped
  all_goals
    first
    | exact .inr ⟨rfl, ‹_›⟩
    | subst char
      exact .inl ⟨_, rfl, rfl⟩

/-- How escapes are read, whether on one line or on several. -/
structure ReadsEscapes (reader : Mode → Reader) : Prop where
  short : ∀ {char value input}, escape? char = some value →
    reader .escaped (char :: input) = prepend value (reader (.text 0) input)
  long : ∀ {input}, reader .escaped ('u' :: input) = reader (.code 4 0) input
  digit : ∀ {left value digit char input}, 1 < left → Text.hexValue? char = some digit →
    reader (.code left value) (char :: input) = reader (.code (left - 1) (16 * value + digit)) input
  last : ∀ {value digit char scalar input}, Text.hexValue? char = some digit →
    Text.scalar? (16 * value + digit) = some scalar →
      reader (.code 1 value) (char :: input) = prepend scalar (reader (.text 0) input)

theorem basic_readsEscapes : ReadsEscapes basic where
  short {char value input} stands := by
    unfold escape? at stands
    split at stands <;> cases stands <;> rfl
  long := rfl
  digit more stands := by
    rw [basic, stands]
    exact if_neg (Nat.not_le.mpr more)
  last stands valid := by
    rw [basic, stands]
    simp only [if_pos (Nat.le_refl 1), valid]

theorem basicLines_readsEscapes : ReadsEscapes basicLines where
  short {char value input} stands := by
    unfold escape? at stands
    split at stands <;> cases stands <;> rw [basicLines.eq_def] <;> rfl
  long {input} := by
    rw [basicLines.eq_def]
    rfl
  digit more stands := by
    rw [basicLines, stands]
    exact if_neg (Nat.not_le.mpr more)
  last stands valid := by
    rw [basicLines, stands]
    simp only [if_pos (Nat.le_refl 1), valid]

namespace ReadsEscapes
variable {reader : Mode → Reader}

/-- Four digits are read as the character with their code. -/
theorem code (reads : ReadsEscapes reader) {char : Char} (small : char.toNat < 256)
    (input : List Char) :
    reader .escaped ('u' :: '0' :: '0' :: hexDigit (char.toNat / 16) ::
      hexDigit (char.toNat % 16) :: input) = prepend char (reader (.text 0) input) := by
  have zero : Text.hexValue? '0' = some 0 := by decide
  have high := hexValue?_hexDigit (char.toNat / 16) (by omega)
  have low := hexValue?_hexDigit (char.toNat % 16) (by omega)
  have scalar : Text.scalar? (16 * (char.toNat / 16) + char.toNat % 16) = some char := by
    rw [Nat.div_add_mod, scalar?_toNat]
  rw [reads.long, reads.digit (by decide) zero, reads.digit (by decide) zero,
    reads.digit (by decide) high]
  exact reads.last low (by simpa using scalar)

/-- What is written in place of a character is a backslash and what is read as the character. -/
theorem escape (reads : ReadsEscapes reader) {char : Char} {written : List Char}
    (escaped : escapeOf? char = some written) (input : List Char) :
    ∃ behind, written = '\\' :: behind ∧
      reader .escaped (behind ++ input) = prepend char (reader (.text 0) input) := by
  rcases escapeOf?_cases escaped with ⟨letter, rfl, stands⟩ | ⟨rfl, control⟩
  · exact ⟨_, rfl, reads.short stands⟩
  · exact ⟨_, rfl, reads.code (toNat_lt_of_isControl control) input⟩

end ReadsEscapes

/-! ## Strings on one line -/

theorem basic_writeBasic (text rest : List Char) :
    basic (.text 0) (writeBasic text ++ '"' :: rest) = some (text, rest) := by
  induction text with
  | nil => rfl
  | cons char text ih =>
    by_cases mark : char = '"'
    · subst mark
      change prepend '"' (basic (.text 0) (writeBasic text ++ '"' :: rest)) = _
      rw [ih]
      rfl
    · rw [writeBasic, if_neg mark, List.append_assoc]
      cases escaped : escapeOf? char with
      | some written =>
        obtain ⟨behind, rfl, read⟩ :=
          basic_readsEscapes.escape escaped (writeBasic text ++ '"' :: rest)
        change basic .escaped (behind ++ _) = _
        rw [read, ih]
        rfl
      | none =>
        obtain ⟨noBackslash, noControl⟩ := plain_of_escapeOf? escaped
        simp only [Option.getD_none, List.cons_append, List.nil_append, basic, if_neg mark,
          if_neg noBackslash, noControl, ih]
        rfl

theorem literal_append (text rest : List Char)
    (shown : ∀ char ∈ text, char ≠ '\'' ∧ isControl char = false) :
    literal (text ++ '\'' :: rest) = some (text, rest) := by
  induction text with
  | nil => rfl
  | cons char text ih =>
    obtain ⟨noMark, noControl⟩ := shown char List.mem_cons_self
    have read := ih fun other member => shown other (List.mem_cons_of_mem char member)
    simp only [List.cons_append, literal, if_neg noMark, noControl, read]
    rfl

/-! ## Strings on several lines -/

/-- A character that stands for itself in a literal string on several lines. -/
def Shown (char : Char) : Prop := char = '\n' ∨ isControl char = false

theorem Shown.ne_return {char : Char} (shown : Shown char) : char ≠ '\r' := by
  rintro rfl
  rcases shown with ends | noControl
  · exact absurd ends (by decide)
  · exact absurd noControl (by decide)

/-- How marks and what stands for itself are read on several lines, behind some marks in a row. -/
structure ReadsLines (mark : Char) (stands : Char → Prop) (reader : Nat → Reader) : Prop where
  counts : ∀ {marks input}, marks < 5 → reader marks (mark :: input) = reader (marks + 1) input
  close : ∀ {marks input}, 3 ≤ marks → input.head? ≠ some mark →
    reader marks input = closing mark marks input
  plain : ∀ {marks char input}, marks < 3 → char ≠ mark → stands char →
    reader marks (char :: input) = prependMarks mark marks (prepend char (reader 0 input))

/-- Behind a text with some marks at its end, three more marks close the string. -/
theorem ReadsLines.closes {mark : Char} {stands : Char → Prop} {reader : Nat → Reader}
    (reads : ReadsLines mark stands reader) {marks : Nat} (few : marks < 3) {rest : List Char}
    (apart : rest.head? ≠ some mark) :
    reader marks (mark :: mark :: mark :: rest) = some (List.replicate marks mark, rest) := by
  rw [reads.counts (by omega), reads.counts (by omega), reads.counts (by omega),
    reads.close (by omega) apart, closing, if_neg (by omega)]
  rfl

theorem literalLines_readsLines : ReadsLines '\'' Shown literalLines where
  counts room := by
    rw [literalLines.eq_def]
    exact if_pos room
  close {marks input} many apart := by
    cases input with
    | nil => rfl
    | cons char input =>
      have noMark : char ≠ '\'' := fun same => apart (congrArg some same)
      rw [literalLines.eq_def]
      simp only [if_neg noMark, if_pos many]
  plain {marks char input} few noMark shown := by
    rw [literalLines.eq_def]
    simp only [if_neg noMark, if_neg (Nat.not_le.mpr few), if_neg shown.ne_return]
    rcases shown with rfl | noControl
    · rfl
    · by_cases ends : char = '\n' <;> simp [ends, noControl]

theorem basicLines_readsLines : ReadsLines '"' (fun char => char ≠ '\\' ∧ Shown char)
    fun marks => basicLines (.text marks) where
  counts room := by
    rw [basicLines.eq_def]
    exact if_pos room
  close {marks input} many apart := by
    cases input with
    | nil => rfl
    | cons char input =>
      have noMark : char ≠ '"' := fun same => apart (congrArg some same)
      rw [basicLines.eq_def]
      simp only [if_neg noMark, if_pos many]
  plain {marks char input} few noMark shown := by
    obtain ⟨noBackslash, shown⟩ := shown
    rw [basicLines.eq_def]
    simp only [if_neg noMark, if_neg (Nat.not_le.mpr few), if_neg noBackslash,
      if_neg shown.ne_return]
    rcases shown with rfl | noControl
    · rfl
    · by_cases ends : char = '\n' <;> simp [ends, noControl]

/-- A backslash behind a few marks starts an escape, and the marks are text. -/
theorem basicLines_backslash {marks : Nat} (few : marks < 3) (input : List Char) :
    basicLines (.text marks) ('\\' :: input) =
      prependMarks '"' marks (basicLines .escaped input) := by
  rw [basicLines.eq_def]
  exact if_neg (Nat.not_le.mpr few)

theorem basicLines_writeBasicLines (text : List Char) {rest : List Char}
    (apart : rest.head? ≠ some '"') {marks : Nat} (few : marks < 3) :
    basicLines (.text marks) (writeBasicLines marks text ++ '"' :: '"' :: '"' :: rest) =
      some (List.replicate marks '"' ++ text, rest) := by
  have reads := basicLines_readsLines
  induction text generalizing marks with
  | nil =>
    rw [writeBasicLines, List.nil_append, List.append_nil]
    exact reads.closes few apart
  | cons char text ih =>
    have read := ih (show 0 < 3 by decide)
    by_cases mark : char = '"'
    · subst mark
      by_cases room : marks < 2
      · rw [writeBasicLines, if_pos rfl, if_pos room, List.cons_append]
        refine (reads.counts (by omega)).trans ?_
        rw [ih (by omega), List.replicate_succ', List.append_assoc]
        rfl
      · -- The third mark in a row is escaped, and the count of the reader begins again as well.
        rw [writeBasicLines, if_pos rfl, if_neg room, List.cons_append, basicLines_backslash few,
          List.cons_append, basicLines_readsEscapes.short rfl, read]
        rfl
    · by_cases ends : char = '\n'
      · subst ends
        rw [writeBasicLines, if_neg mark, if_pos rfl, List.cons_append]
        refine (reads.plain few mark ⟨by decide, .inl rfl⟩).trans ?_
        rw [read]
        rfl
      · rw [writeBasicLines, if_neg mark, if_neg ends, List.append_assoc]
        cases escaped : escapeOf? char with
        | some written =>
          obtain ⟨behind, rfl, undone⟩ := basicLines_readsEscapes.escape escaped
            (writeBasicLines 0 text ++ '"' :: '"' :: '"' :: rest)
          rw [Option.getD_some, List.cons_append, basicLines_backslash few, undone, read]
          rfl
        | none =>
          obtain ⟨noBackslash, noControl⟩ := plain_of_escapeOf? escaped
          rw [Option.getD_none, List.singleton_append]
          refine (reads.plain few mark ⟨noBackslash, .inr noControl⟩).trans ?_
          rw [read]
          rfl

/-- The longest run so far is not longer than the longest one. -/
theorem le_longestRun (mark : Char) (text : List Char) (current longest : Nat) :
    longest ≤ longestRun mark current longest text := by
  induction text generalizing current longest with
  | nil => exact Nat.le_refl longest
  | cons char text ih =>
    rw [longestRun]
    split
    · exact Nat.le_trans (Nat.le_max_left ..) (ih ..)
    · exact ih ..

theorem literalLines_append (text : List Char) {rest : List Char} (apart : rest.head? ≠ some '\'')
    (shown : ∀ char ∈ text, Shown char) {marks longest : Nat} (few : marks < 3)
    (short : longestRun '\'' marks longest text ≤ 2) :
    literalLines marks (text ++ '\'' :: '\'' :: '\'' :: rest) =
      some (List.replicate marks '\'' ++ text, rest) := by
  have reads := literalLines_readsLines
  induction text generalizing marks longest with
  | nil =>
    rw [List.nil_append, List.append_nil]
    exact reads.closes few apart
  | cons char text ih =>
    have others : ∀ other ∈ text, Shown other := fun other member =>
      shown other (List.mem_cons_of_mem char member)
    rw [longestRun] at short
    by_cases mark : char = '\''
    · subst mark
      rw [if_pos rfl] at short
      -- The run at hand is among those that are counted, so it stays below three marks.
      have counted := le_longestRun '\'' text (marks + 1) (max longest (marks + 1))
      rw [List.cons_append, reads.counts (by omega), ih others (by omega) short,
        List.replicate_succ', List.append_assoc]
      rfl
    · rw [if_neg mark] at short
      rw [List.cons_append, reads.plain few mark (shown char List.mem_cons_self),
        ih others (by decide) short]
      rfl

/-! ## Any form -/

theorem not_mem_of_longestRun {mark : Char} {text : List Char} {current longest : Nat}
    (none : longestRun mark current longest text = 0) : mark ∉ text := by
  induction text generalizing current longest with
  | nil => exact List.not_mem_nil
  | cons char text ih =>
    rw [longestRun] at none
    split at none
    · have counted := le_longestRun mark text (current + 1) (max longest (current + 1))
      omega
    · next other => exact List.not_mem_cons_of_ne_of_not_mem (Ne.symm other) (ih none)

/-- What a form asks of a text: without escapes, nothing may stand in it that would end it or that
is not shown. -/
def Suits (text : List Char) : Form → Prop
  | .basic => True
  | .literal => ∀ char ∈ text, char ≠ '\'' ∧ isControl char = false
  | .basicLines => True
  | .literalLines => longestRun '\'' 0 0 text ≤ 2 ∧ ∀ char ∈ text, Shown char

theorem shown_of_needsCodes {text : List Char} (codes : needsCodes text = false) :
    ∀ char ∈ text, Shown char := by
  intro char member
  have shown := List.any_eq_false.mp codes char member
  by_cases ends : char = '\n'
  · exact .inl ends
  · exact .inr (by simpa [ends] using shown)

/-- The form that a text is given suits it. -/
theorem suits_formOf (text : List Char) : Suits text (formOf text) := by
  unfold formOf
  simp only [Bool.and_eq_true, Bool.not_eq_true', decide_eq_true_eq, beq_iff_eq]
  split_ifs with _ literal _ lines
  · trivial
  · obtain ⟨⟨codes, single⟩, noLines⟩ := literal
    intro char member
    refine ⟨fun same => not_mem_of_longestRun single (same ▸ member), ?_⟩
    refine (shown_of_needsCodes codes char member).resolve_left fun ends => ?_
    rw [List.contains_eq_mem, decide_eq_false_iff_not] at noLines
    exact noLines (ends ▸ member)
  · trivial
  · exact ⟨lines.2, shown_of_needsCodes lines.1⟩
  · trivial
  · trivial

/-- Only the end of a line is passed over behind the opening marks. -/
theorem skipFirstEnd_of_head {input : List Char} (noEnd : input.head? ≠ some '\n')
    (noReturn : input.head? ≠ some '\r') : skipFirstEnd input = input := by
  unfold skipFirstEnd
  split <;> simp_all

/-- The end of a line that is written first is passed over, and nothing else. -/
theorem skipFirstEnd_firstEnd {text input : List Char}
    (starts : '\n' ∉ text → input.head? ≠ some '\n' ∧ input.head? ≠ some '\r') :
    skipFirstEnd (firstEnd text ++ input) = input := by
  by_cases lines : '\n' ∈ text
  · rw [firstEnd, if_pos (List.contains_iff_mem.mpr lines)]
    rfl
  · rw [firstEnd, if_neg (mt List.contains_iff_mem.mp lines)]
    exact skipFirstEnd_of_head (starts lines).1 (starts lines).2

/-- A mark that is not the first of three opens a string on one line. -/
theorem read_basic {input : List Char} (single : ∀ behind, input ≠ '"' :: '"' :: behind) :
    read ('"' :: input) = basic (.text 0) input := by
  unfold read
  split <;> simp_all

theorem read_literal {input : List Char} (single : ∀ behind, input ≠ '\'' :: '\'' :: behind) :
    read ('\'' :: input) = literal input := by
  unfold read
  split <;> simp_all

/-- A text on one line does not begin with a mark. -/
theorem writeBasic_head (text : List Char) : (writeBasic text).head? ≠ some '"' := by
  cases text with
  | nil => simp [writeBasic]
  | cons char text =>
    by_cases mark : char = '"'
    · simp [writeBasic, mark]
    · cases escaped : escapeOf? char with
      | some written =>
        obtain ⟨behind, rfl, -⟩ := basic_readsEscapes.escape escaped []
        simp [writeBasic, mark, escaped]
      | none => simp [writeBasic, mark, escaped]

/-- Only a text that has an end of line begins with one on several lines. -/
theorem writeBasicLines_head {text : List Char} (noLines : '\n' ∉ text) (input : List Char) :
    ((writeBasicLines 0 text ++ '"' :: input).head? ≠ some '\n') ∧
      (writeBasicLines 0 text ++ '"' :: input).head? ≠ some '\r' := by
  cases text with
  | nil => simp [writeBasicLines]
  | cons char text =>
    by_cases mark : char = '"'
    · simp [writeBasicLines, mark]
    · have ends : char ≠ '\n' := fun same => noLines (same ▸ List.mem_cons_self)
      cases escaped : escapeOf? char with
      | some written =>
        obtain ⟨behind, rfl, -⟩ := basic_readsEscapes.escape escaped []
        simp [writeBasicLines, mark, ends, escaped]
      | none =>
        have shown : Shown char := .inr (plain_of_escapeOf? escaped).2
        simp [writeBasicLines, mark, ends, escaped, shown.ne_return]

/-- What is written in a form that suits the text is read back as the text. -/
theorem read_writeIn {form : Form} {text rest : List Char} (suits : Suits text form)
    (noDouble : rest.head? ≠ some '"') (noSingle : rest.head? ≠ some '\'') :
    read (writeIn form text ++ rest) = some (text, rest) := by
  cases form with
  | basic =>
    have single : ∀ behind, writeBasic text ++ '"' :: rest ≠ '"' :: '"' :: behind := by
      intro behind same
      cases written : writeBasic text with
      | nil =>
        rw [written] at same
        exact noDouble (congrArg List.head? (List.cons.inj same).2)
      | cons first others =>
        rw [written] at same
        exact writeBasic_head text (by rw [written, (List.cons.inj same).1]; rfl)
    simp only [writeIn, List.append_assoc, List.cons_append, List.nil_append]
    rw [read_basic single, basic_writeBasic]
  | literal =>
    have single : ∀ behind, text ++ '\'' :: rest ≠ '\'' :: '\'' :: behind := by
      intro behind same
      cases text with
      | nil => exact noSingle (congrArg List.head? (List.cons.inj same).2)
      | cons first others => exact (suits first List.mem_cons_self).1 (List.cons.inj same).1
    simp only [writeIn, List.append_assoc, List.cons_append, List.nil_append]
    rw [read_literal single, literal_append text rest suits]
  | basicLines =>
    simp only [writeIn, List.append_assoc, List.cons_append, List.nil_append, read]
    rw [skipFirstEnd_firstEnd fun noLines => writeBasicLines_head noLines _,
      basicLines_writeBasicLines text noDouble (by decide)]
    rfl
  | literalLines =>
    obtain ⟨short, shown⟩ := suits
    have starts (noLines : '\n' ∉ text) :
        (text ++ '\'' :: '\'' :: '\'' :: rest).head? ≠ some '\n' ∧
          (text ++ '\'' :: '\'' :: '\'' :: rest).head? ≠ some '\r' := by
      cases text with
      | nil => simp
      | cons first others =>
        have ends : first ≠ '\n' := fun same => noLines (same ▸ List.mem_cons_self)
        simp [ends, (shown first List.mem_cons_self).ne_return]
    simp only [writeIn, List.append_assoc, List.cons_append, List.nil_append, read]
    rw [skipFirstEnd_firstEnd starts, literalLines_append text noSingle shown (by decide) short]
    rfl

/-- Any text is read back from the form that is chosen for it. -/
theorem read_formOf (text : List Char) {rest : List Char} (noDouble : rest.head? ≠ some '"')
    (noSingle : rest.head? ≠ some '\'') :
    read (writeIn (formOf text) text ++ rest) = some (text, rest) :=
  read_writeIn (suits_formOf text) noDouble noSingle

/-- A string begins with a mark. -/
theorem writeIn_head (form : Form) (text : List Char) :
    ∃ mark behind, writeIn form text = mark :: behind ∧ (mark = '"' ∨ mark = '\'') := by
  cases form with
  | basic => exact ⟨_, _, rfl, .inl rfl⟩
  | literal => exact ⟨_, _, rfl, .inr rfl⟩
  | basicLines => exact ⟨_, _, rfl, .inl rfl⟩
  | literalLines => exact ⟨_, _, rfl, .inr rfl⟩

end BehaviorTree.Toml.Quoted
