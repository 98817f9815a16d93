import BehaviorTree.Config.Toml
import BehaviorTree.Proofs.Toml.Document

namespace BehaviorTree.Config
open Toml (Entries Reads Draft statementsOf)
open Toml.Quoted (writeIn formOf)

/-! ## Writing -/

/-- The lines of a label: the label itself and an empty one. -/
def linesOf (label : String) : List Char :=
  Toml.line "label".toList (writeIn (formOf label.toList) label.toList) ++ ['\n']

/-- The lines of a configuration, whether or not its marks can be counted. -/
def lines (config : Config) : List Char :=
  config.label.elim [] linesOf ++ capacityLines config.capacities

/-- The marks in a row of the label, if there is one, can be counted. -/
def isCountable (config : Config) : Bool :=
  config.label.all fun label => Toml.Quoted.isCountable label.toList

theorem labelLines_some (label : String) :
    labelLines (some label) =
      if Toml.Quoted.isCountable label.toList then .ok (linesOf label)
      else .error .markRunTooLong := by
  have key : "label = ".toList = "label".toList ++ [' ', '=', ' '] := by decide
  rw [labelLines, Toml.Quoted.write, require, linesOf, Toml.line, key]
  split
  · simp only [List.append_assoc]
    rfl
  · rfl

/-- Nothing but the number of marks in a row keeps a configuration from being written. -/
theorem toTomlText_eq (config : Config) :
    config.toTomlText =
      if config.isCountable then .ok (String.ofList config.lines) else .error .markRunTooLong := by
  obtain ⟨label, capacities⟩ := config
  cases label with
  | none => rfl
  | some label =>
    rw [toTomlText, labelLines_some]
    change _ = if Toml.Quoted.isCountable label.toList then _ else _
    split <;> rfl

/-! ## Reading -/

/-- The entry of the label, if there is one. -/
def labelEntries (label : Option String) : Entries :=
  label.elim [] fun text => [("label", .text text)]

/-- The entries of the capacities. -/
def amountEntries (capacities : Capacities) : Entries :=
  Resource.all.map fun resource => (resource.name, .integer (capacities.get resource))

theorem isBare_name (resource : Resource) : Toml.isBare resource.name.toList = true := by
  cases resource <;> decide

/-- Amounts of 32 bits are among the integers. -/
theorem reads_amounts {capacities : Capacities}
    (small : ∀ resource, capacities.get resource < Word.bound32) (resources : List Resource) :
    Reads (resources.flatMap fun resource => amountLine resource (capacities.get resource))
      (resources.map fun resource =>
        .entry [] resource.name (.integer (capacities.get resource))) := by
  induction resources with
  | nil => exact .nil
  | cons resource resources ih =>
    have bound : capacities.get resource < 0x8000000000000000 :=
      Nat.lt_trans (small resource) (by decide)
    have read := ih.entry (isBare_name resource) (Toml.writes_number bound)
    rw [String.ofList_toList] at read
    exact read

theorem reads_lines {config : Config}
    (small : ∀ resource, config.capacities.get resource < Word.bound32) :
    Reads config.lines (statementsOf (labelEntries config.label) ++
      .header [] "capacity" :: statementsOf (amountEntries config.capacities)) := by
  have amounts := reads_amounts small Resource.all
  have table : Reads (capacityLines config.capacities)
      (.header [] "capacity" :: statementsOf (amountEntries config.capacities)) := by
    have read := amounts.header (show Toml.isBare "capacity".toList = true by decide)
    rw [String.ofList_toList] at read
    rw [statementsOf, amountEntries, List.map_map]
    exact read
  rw [lines]
  cases config.label with
  | none => exact table
  | some label =>
    have text := Toml.writes_text label.toList
    have read := table.blank.entry (show Toml.isBare "label".toList = true by decide) text
    rw [String.ofList_toList, String.ofList_toList] at read
    simp only [Option.elim_some, linesOf, List.append_assoc]
    exact read

/-- The table that the lines of a configuration describe. -/
theorem ofText?_lines {config : Config}
    (small : ∀ resource, config.capacities.get resource < Word.bound32) :
    Toml.ofText? config.lines = some (labelEntries config.label ++
      [("capacity", .table .header (amountEntries config.capacities))]) := by
  have noMark : Toml.skipByteOrderMark config.lines = config.lines := by
    rw [lines]
    cases config.label <;> rfl
  have apart : "capacity" ∉ (labelEntries config.label).map Prod.fst := by
    cases config.label with
    | none => exact List.not_mem_nil
    | some label => exact show "capacity" ∉ ["label"] by decide
  have distinct : ((amountEntries config.capacities).map Prod.fst).Nodup := by
    rw [amountEntries, List.map_map]
    exact show (Resource.all.map Resource.name).Nodup by decide
  have first : (statementsOf (labelEntries config.label)).foldlM Draft.add? {} =
      some ⟨labelEntries config.label, []⟩ := by
    cases config.label <;> rfl
  have table := Toml.foldlM_entries apart [] (amountEntries config.capacities) distinct
  rw [Toml.ofText?, noMark, reads_lines small _ (Nat.lt_succ_self _)]
  simp only [Option.bind_eq_bind, Option.bind_some]
  rw [List.foldlM_append, first, Option.bind_eq_bind, Option.bind_some, List.foldlM_cons,
    Toml.add?_header apart, Option.bind_eq_bind, Option.bind_some, table]
  rfl

theorem lookup_amountEntries (capacities : Capacities) (resource : Resource) :
    (amountEntries capacities).lookup resource.name =
      some (.integer (capacities.get resource)) := by
  cases resource <;> rfl

theorem amount?_integer {amount : Nat} (small : amount < Word.bound32) :
    amount? (.integer amount) = some amount := by
  have bound : (0 : Int) ≤ amount ∧ (amount : Int) < Word.bound32 := by
    exact ⟨Int.natCast_nonneg amount, Int.ofNat_lt.mpr small⟩
  rw [amount?, if_pos bound]
  rfl

theorem capacitiesOfToml?_amountEntries {capacities : Capacities} (origin : TomlOrigin)
    (small : ∀ resource, capacities.get resource < Word.bound32) :
    capacitiesOfToml? (.table origin (amountEntries capacities)) = some capacities := by
  have amounts : Resource.all.mapM (fun resource =>
      (((amountEntries capacities).lookup resource.name).mapM amount?).map fun amount =>
        (resource, amount.getD 0)) =
      some (Resource.all.map fun resource => (resource, capacities.get resource)) := by
    have read (resource : Resource) :
        (((amountEntries capacities).lookup resource.name).mapM amount?).map (fun amount =>
          (resource, amount.getD 0)) = pure (resource, capacities.get resource) := by
      rw [lookup_amountEntries, Option.mapM_some, amount?_integer (small resource)]
      rfl
    simp only [read]
    exact List.mapM_pure
  rw [capacitiesOfToml?, amounts]
  rfl

theorem ofEntries?_entries {config : Config}
    (small : ∀ resource, config.capacities.get resource < Word.bound32) :
    ofEntries? (labelEntries config.label ++
      [("capacity", .table .header (amountEntries config.capacities))]) = some config := by
  obtain ⟨label, capacities⟩ := config
  have read := capacitiesOfToml?_amountEntries .header small
  generalize Toml.table .header (amountEntries capacities) = table at read
  have found : Entries.find? (labelEntries label ++ [("capacity", table)]) "capacity" =
      some table := by
    cases label <;> rfl
  have text : Entries.find? (labelEntries label ++ [("capacity", table)]) "label" =
      label.map .text := by
    cases label <;> rfl
  simp only [ofEntries?, found, text, read]
  cases label <;> rfl

/-- The lines of a configuration are read back as the configuration. -/
theorem ofTomlText_lines {config : Config}
    (small : ∀ resource, config.capacities.get resource < Word.bound32) :
    ofTomlText (String.ofList config.lines) = .ok config := by
  rw [ofTomlText, String.toList_ofList, ofText?_lines small, Option.bind_some,
    ofEntries?_entries small]

/-! ## Both together -/

/-- Every configuration with amounts of 32 bits is written, and read back as it was, unless its
label has more marks in a row than are counted. Even then nothing but the count is in the way: the
lines of the configuration are read back as well. -/
theorem toTomlText_roundTrips (config : Config)
    (small : ∀ resource, config.capacities.get resource < Word.bound32) :
    (config.isCountable = true →
      ∃ text, config.toTomlText = .ok text ∧ ofTomlText text = .ok config) ∧
    (config.isCountable = false → config.toTomlText = .error .markRunTooLong) ∧
    ofTomlText (String.ofList config.lines) = .ok config := by
  have read := ofTomlText_lines small
  refine ⟨fun countable => ⟨_, ?_, read⟩, fun uncountable => ?_, read⟩
  · rw [toTomlText_eq, if_pos countable]
  · rw [toTomlText_eq, if_neg (by simp [uncountable])]

/-- A label with marks of both kinds, a backslash, ends of lines and a code. -/
theorem toTomlText_roundTrips_sample :
    let config : Config :=
      ⟨some "\n\"\"\"\x27\\\r\n\x07\x27\x27\x27", ⟨256, 0, 4294967295, 7, 0, 12, 32⟩⟩
    (∀ resource, config.capacities.get resource < Word.bound32) ∧
      ∃ text, config.toTomlText = .ok text ∧ ofTomlText text = .ok config := by
  intro config
  have small : ∀ resource, config.capacities.get resource < Word.bound32 := by
    intro resource
    cases resource <;> decide
  exact ⟨small, (toTomlText_roundTrips config small).1 (by decide)⟩

theorem longestRun_replicate (mark : Char) (count current longest : Nat) :
    Toml.Quoted.longestRun mark current longest (List.replicate count mark) =
      if count = 0 then longest else max longest (current + count) := by
  induction count generalizing current longest with
  | zero => rfl
  | succ count ih =>
    rw [List.replicate_succ, Toml.Quoted.longestRun, if_pos rfl, ih, if_neg (Nat.succ_ne_zero _)]
    split <;> omega

/-- A label of 256 marks is not written at all. -/
theorem exists_not_written :
    ¬∀ config : Config, (∀ resource, config.capacities.get resource < Word.bound32) →
      ∃ text, config.toTomlText = .ok text ∧ ofTomlText text = .ok config := by
  intro all
  have small : ∀ resource, ({} : Capacities).get resource < Word.bound32 := by
    intro resource
    cases resource <;> decide
  obtain ⟨label, marks⟩ : ∃ label : String, label.toList = List.replicate 256 '\'' :=
    ⟨_, String.toList_ofList⟩
  have uncountable : Toml.Quoted.isCountable label.toList = false := by
    rw [marks, Toml.Quoted.isCountable, longestRun_replicate '\'', Bool.and_eq_false_iff]
    exact .inr (by decide)
  obtain ⟨text, written, -⟩ := all ⟨some label, {}⟩ small
  rw [toTomlText_eq, isCountable, Option.all_some, uncountable] at written
  cases written

end BehaviorTree.Config
