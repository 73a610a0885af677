import FieldRules.Config.Files
import FieldRules.Proofs.Json.Rendering
import FieldRules.Proofs.NameMap
import FieldRules.Proofs.Record.Entries
import FieldRules.Proofs.Storage.Write
import FieldRules.Proofs.Yaml.Tree

/-!
# Saved configurations

A configuration that is saved is loaded again as it was, as YAML and as JSON. The key facts: `Config.readJson_toValue`
and `Config.ofYaml?_toValue` (each reader takes in what is written of a configuration), and from them
`Config.save_reloads`.
-/

namespace FieldRules

open Data (Value)
open Json (Scope Document)
open Yaml (Tree)

variable {scope : Scope}

theorem Data.Value.numberless_of_textual {v : Value} {depth : Nat} (h : v.Textual depth) : v.Numberless := by
  induction h with
  | bool b => exact .bool b
  | string s => exact .string s
  | map _ ih => exact .map ih

/-! ### JSON -/

private theorem OutputConfig.readJson_toValue (c : OutputConfig) (hbudget : 1 < scope.budget) :
    shape.read scope (.ofValue c.toValue) = .ok c := by
  simp [toValue, Document.ofValue, Document.ofMembers, Json.Shape.read, Scope.enter, hbudget, Json.Shape.readMembers,
    shape, Json.Slot.name, Document.readText, Document.readString, Document.readBool, bind, Except.bind, pure,
    Except.pure]

private theorem LogConfig.readJson_toValue (c : LogConfig) (hbudget : 1 < scope.budget) :
    shape.read scope (.ofValue c.toValue) = .ok c := by
  obtain ⟨level, format, file⟩ := c
  -- any of the three parts may have been left out
  cases level <;> cases format <;> cases file <;>
    simp [toValue, entries, Document.ofValue, Document.ofMembers, Json.Shape.read, Scope.enter, hbudget,
      Json.Shape.readMembers, shape, Json.Slot.name, Document.readText?, Document.readText, Document.readString, bind,
      Except.bind, pure, Except.pure]

namespace Config

private theorem readMessages_ofMembers (m : NameMap String) (l : List (String × String)) :
    readMessages true m (Document.ofMembers (l.map fun e => (e.1, .string e.2))) =
      .ok (l.foldl (fun m e => m.insert e.1 e.2) m) := by
  induction l generalizing m with
  | nil => rfl
  | cons e rest ih => exact ih (m.insert e.1 e.2)

private theorem readMessageMap_toValue (m : NameMap String) (hbudget : 1 < scope.budget) :
    readMessageMap scope (.ofValue (.map (m.entries.map fun e => (e.1, .string e.2)))) = .ok m := by
  have hread := readMessages_ofMembers .empty m.entries
  rw [← NameMap.ofList, m.ofList_entries] at hread
  simp [Document.ofValue, readMessageMap, Scope.enter, hbudget, hread, bind, Except.bind]

/-- What is written of a configuration as JSON is read as the configuration. -/
theorem readJson_toValue (c : Config) (hbudget : 2 < scope.budget) : readJson scope (.ofValue c.toValue) = .ok c := by
  have henter : scope.enter = .ok ⟨scope.origin, scope.budget - 1⟩ := if_pos (by omega)
  have hinner : 1 < (Scope.mk scope.origin (scope.budget - 1)).budget := by
    show 1 < scope.budget - 1
    omega
  have houtput := c.output.readJson_toValue hinner
  have hlogging := c.logging.readJson_toValue hinner
  have hmessages := readMessageMap_toValue c.messages hinner
  have hdocument : Document.ofValue c.toValue = .map [(.string (some "output"), .ofValue c.output.toValue),
      (.string (some "logging"), .ofValue c.logging.toValue),
      (.string (some "messages"), .ofValue (.map (c.messages.entries.map fun e => (e.1, .string e.2))))] true := rfl
  rw [readJson, hdocument, Json.Shape.read, henter]
  simp [Json.Shape.readMembers, shape, Json.Slot.name, houtput, hlogging, hmessages, bind, Except.bind, pure,
    Except.pure]

end Config

/-! ### YAML -/

namespace Yaml.Tree

/-- A plain text is never one of the words for nothing, so a text is always there again. -/
theorem optionalText?_ofText (s : String) : (ofText s).optionalText? = some (some s) := by
  have hnothing : (ofText s).isNothing? = some false := by
    by_cases hplain : styleOf false s = .plain
    · have htext := (styleOf_plain hplain).1
      rw [Plain.ofText] at htext
      split at htext
      · cases htext
      · rename_i hnothing
        simpa [ofText, isNothing?, hplain] using hnothing
    · simp [ofText, isNothing?, hplain]
  rw [optionalText?, hnothing]
  rfl

end Yaml.Tree

private theorem OutputConfig.ofYaml?_toValue (c : OutputConfig) :
    Yaml.readStructure? yamlSlots {} (.ofValue c.toValue) = some c := by
  obtain ⟨format, color⟩ := c
  cases color <;>
    simp [toValue, Tree.ofValue, Tree.ofEntries, Tree.ofText, Yaml.readStructure?, Tree.entries?, Yaml.readSlots?,
      yamlSlots, Tree.text?, Tree.bool?, Yaml.bool?]

private theorem LogConfig.ofYaml?_toValue (c : LogConfig) :
    Yaml.readStructure? yamlSlots {} (.ofValue c.toValue) = some c := by
  have htext (s : String) : (Tree.ofText s).text? = some s := rfl
  obtain ⟨level, format, file⟩ := c
  cases level <;> cases format <;> cases file <;>
    simp [toValue, entries, Tree.ofValue, Tree.ofEntries, Yaml.readStructure?, Tree.entries?, Yaml.readSlots?,
      yamlSlots, htext, Tree.optionalText?_ofText]

namespace Config

private theorem messagesOfYaml?_toValue (m : NameMap String) :
    messagesOfYaml? (.ofValue (.map (m.entries.map fun e => (e.1, .string e.2)))) = some m := by
  have hfold (l : List (String × String)) (m : NameMap String) :
      (Tree.ofEntries (l.map fun e => (e.1, .string e.2))).foldlM
        (fun m e => do return m.insert (← e.1.text?) (← e.2.text?)) m =
        some (l.foldl (fun m e => m.insert e.1 e.2) m) := by
    induction l generalizing m with
    | nil => rfl
    | cons e rest ih => exact ih (m.insert e.1 e.2)
  have hread := hfold m.entries .empty
  rw [← NameMap.ofList, m.ofList_entries] at hread
  exact hread

/-- What is written of a configuration as YAML is read as the configuration. -/
theorem ofYaml?_toValue (c : Config) : ofYaml? (.ofValue c.toValue) = some c := by
  have houtput := c.output.ofYaml?_toValue
  have hlogging := c.logging.ofYaml?_toValue
  have hmessages := messagesOfYaml?_toValue c.messages
  have hname (name : String) : (Tree.ofText name).text? = some name := rfl
  have htree : Tree.ofValue c.toValue = .map none [(.ofText "output", .ofValue c.output.toValue),
      (.ofText "logging", .ofValue c.logging.toValue),
      (.ofText "messages", .ofValue (.map (c.messages.entries.map fun e => (e.1, .string e.2))))] := rfl
  rw [ofYaml?, htree, Yaml.readStructure?]
  simp [Tree.entries?, Yaml.readSlots?, yamlSlots, hname, houtput, hlogging, hmessages]

/-! ### Files -/

/-- A configuration is made of texts and truth values alone. -/
private theorem textual_toValue (c : Config) : c.toValue.Textual 2 := by
  have htexts (l : List (String × String)) : (Value.map (l.map fun e => (e.1, .string e.2))).Textual 1 := by
    refine .map fun m hm => ?_
    obtain ⟨e, -, rfl⟩ := List.mem_map.1 hm
    exact .string e.2
  refine .map ?_
  simp only [List.forall_mem_cons]
  refine ⟨.map ?_, htexts _, htexts _, fun m hm => absurd hm List.not_mem_nil⟩
  simp only [List.forall_mem_cons]
  exact ⟨.string _, .bool _, fun m hm => absurd hm List.not_mem_nil⟩

/-- The text of a configuration is read as the configuration, in both syntaxes. -/
private theorem read_fileText (c : Config) (isYaml : Bool) : documentType.read isYaml (c.fileText isYaml) = .ok c := by
  cases isYaml with
  | true =>
    have htree : Tree.read? (c.fileText true) = some (.ofValue c.toValue) :=
      Tree.read?_render c.textual_toValue (by decide)
    simp [DocumentType.read, htree, documentType, c.ofYaml?_toValue]
  | false =>
    have hdocument : Document.read (c.fileText false) = (.ofValue c.toValue, true) :=
      Document.read_renderPretty (Value.numberless_of_textual c.textual_toValue)
    have hread : readJson ⟨.text, 128⟩ (.ofValue c.toValue) = .ok c := c.readJson_toValue (by decide)
    rw [DocumentType.read, if_neg Bool.false_ne_true, Json.readWhole_of_read hdocument]
    exact congrArg (Except.mapError DocumentFault.json) hread

/-- A configuration that is saved where something can be written is loaded again as it was. -/
theorem save_reloads (c : Config) {files : FileTree} {path : String}
    (hwritable : ∃ text files', files.write path text = .ok files') :
    ∃ files', c.save files path = .ok files' ∧ ofFile files' path = .ok c := by
  obtain ⟨text, saved, hsaved⟩ := hwritable
  obtain ⟨files', hwrite⟩ := FileTree.exists_write_of_write hsaved (c.fileText (Path.isYaml path))
  refine ⟨files', by rw [save, hwrite]; rfl, ?_⟩
  have htext : DocumentType.fileText files' path = .ok (c.fileText (Path.isYaml path)) := by
    rw [DocumentType.fileText, FileTree.contains, FileTree.find?_write hwrite, FileTree.read_write hwrite]
    rfl
  rw [ofFile, htext]
  show ((documentType.read (Path.isYaml path) (c.fileText (Path.isYaml path))).mapError _) = .ok c
  rw [read_fileText]
  rfl

/-- A configuration whose message takes more than one line. -/
private def wordyConfig : Config :=
  ⟨⟨"json", false⟩, ⟨none, some "text", none⟩, NameMap.empty.insert "email" "not an address:\n - 'null'\n"⟩

theorem save_reloads_wordy :
    (∃ text files', (FileTree.bare ["home"]).write "settings/formcheck.yml" text = .ok files') ∧
      ∃ files', wordyConfig.save (FileTree.bare ["home"]) "settings/formcheck.yml" = .ok files' ∧
        ofFile files' "settings/formcheck.yml" = .ok wordyConfig :=
  have hwritable : ∃ text files', (FileTree.bare ["home"]).write "settings/formcheck.yml" text = .ok files' :=
    ⟨"", _, rfl⟩
  ⟨hwritable, save_reloads wordyConfig hwritable⟩

end Config

end FieldRules
