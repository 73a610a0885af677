import FieldRules.Proofs.Json.Double
import FieldRules.Proofs.Json.Rendering
import FieldRules.Rule.Json

/-!
# Parameters in JSON

What becomes of the parameters of a rule when they are written as JSON and read again: a text comes back, and so does a
number as long as it is finite; what is not finite is written as `null`, which no parameter is read from. The key facts:
`RuleParam.readable_toValue`, `RuleParam.readJsonList_written` and `RuleParam.readJsonList_written_of_not_isFinite`.
-/

namespace FieldRules.RuleParam

open Json

/-- What a parameter comes back as: a text as the same text, a number as a number. -/
inductive ComesBack : RuleParam → RuleParam → Prop
  | text (s : String) : ComesBack (text s) (text s)
  | number (x y : Binary64) : ComesBack (number x) (number y)

/-- Whether a parameter is a text or a finite number. -/
def isFinite : RuleParam → Bool
  | number x => x.isFinite
  | text _ => true

private theorem text_of_not_isFinite {x : Binary64} (h : ¬ x.isFinite) : (Data.Number.real x).text = "null" := by
  cases x with
  | nan => rfl
  | infinity negative => cases negative <;> rfl
  | finite negative rank => exact absurd rfl h

private theorem exists_literal {x : Binary64} (h : x.isFinite) :
    ∃ l : Literal, l.number?.isSome ∧ Token.ReadsApart (Data.Number.real x).text.toList [.number l] := by
  cases x with
  | nan | infinity negative => cases h
  | finite negative rank =>
    obtain ⟨l, hwell, hrange, htext⟩ := NumberStyle.exists_literal_render negative rank
    refine ⟨l, hrange, ?_⟩
    rw [Data.Number.text, htext]
    exact Literal.readsApart hwell

theorem readable_toValue (p : RuleParam) : Readable p.toValue := by
  cases p with
  | text s => exact .string s
  | number x =>
    by_cases h : x.isFinite
    · obtain ⟨l, -, hreads⟩ := exists_literal h
      exact .number hreads
    · exact .nullNumber (text_of_not_isFinite h)

/-! ### What is read of one parameter -/

private theorem readJson_written (scope : Scope) {p : RuleParam} (h : p.isFinite) :
    ∃ p', readJson scope (.ofValue p.toValue) = .ok p' ∧ ComesBack p p' := by
  cases p with
  | text s => exact ⟨text s, rfl, .text s⟩
  | number x =>
    obtain ⟨l, hrange, hreads⟩ := exists_literal h
    obtain ⟨n, hn⟩ := Option.isSome_iff_exists.1 hrange
    refine ⟨number n.toBinary64, ?_, .number x _⟩
    rw [toValue, Document.ofValue_number hreads, readJson, Document.readNode, Document.node?, hn]
    rfl

private theorem readJson_written_of_not_isFinite (scope : Scope) {p : RuleParam} (h : ¬ p.isFinite) :
    readJson scope (.ofValue p.toValue) = .error (.mismatch (.noVariant "RuleParam")) := by
  cases p with
  | text s => exact absurd rfl h
  | number x =>
    rw [toValue, Document.ofValue_nullNumber (text_of_not_isFinite h)]
    rfl

/-! ### What is read of a list of them -/

section Lists

variable {scope : Scope} {params : List RuleParam}

private theorem readJsonList_ofValue (hscope : 1 < scope.budget) :
    readJsonList scope (.ofValue (.list (params.map toValue))) =
      Document.readItems (readJson ⟨scope.origin, scope.budget - 1⟩) true (params.map fun p => .ofValue p.toValue) := by
  rw [Document.ofValue, Document.ofItems_eq, List.map_map, readJsonList, Document.readList, Scope.enter, if_pos hscope]
  rfl

theorem readJsonList_written (hscope : 1 < scope.budget) (h : ∀ p ∈ params, p.isFinite) :
    ∃ params', readJsonList scope (.ofValue (.list (params.map toValue))) = .ok params' ∧
      List.Forall₂ ComesBack params params' := by
  rw [readJsonList_ofValue hscope]
  induction params with
  | nil => exact ⟨[], rfl, .nil⟩
  | cons p rest ih =>
    obtain ⟨hp, hrest⟩ := List.forall_mem_cons.1 h
    obtain ⟨p', hread, hback⟩ := readJson_written _ hp
    obtain ⟨rest', hreads, hbacks⟩ := ih hrest
    refine ⟨p' :: rest', ?_, .cons hback hbacks⟩
    rw [List.map_cons, Document.readItems, hread, hreads]
    rfl

/-- The first parameter that is written as `null` is the one that is refused. -/
theorem readJsonList_written_of_not_isFinite (hscope : 1 < scope.budget) (h : ∃ p ∈ params, ¬ p.isFinite) :
    readJsonList scope (.ofValue (.list (params.map toValue))) = .error (.mismatch (.noVariant "RuleParam")) := by
  rw [readJsonList_ofValue hscope]
  induction params with
  | nil => simp at h
  | cons p rest ih =>
    rw [List.map_cons, Document.readItems]
    by_cases hp : p.isFinite
    · obtain ⟨p', hread, -⟩ := readJson_written _ hp
      rw [List.exists_mem_cons_iff] at h
      rw [hread, ih (h.resolve_left (not_not_intro hp))]
      rfl
    · rw [readJson_written_of_not_isFinite _ hp]
      rfl

end Lists

end FieldRules.RuleParam
