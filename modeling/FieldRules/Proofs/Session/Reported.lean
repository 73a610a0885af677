import FieldRules.Proofs.Record.Entries
import FieldRules.Proofs.Registry.Lookup
import FieldRules.Proofs.Rule.FileType
import FieldRules.Proofs.Rule.Json
import FieldRules.Proofs.Session.Composition
import FieldRules.Proofs.Session.Submission

/-!
# Reported errors in JSON

What becomes of the errors that a session reports when they are written as JSON and read again. The key facts:
`FieldError.readJson_written` (all of an error comes back but for its parameters, which come back or not by
themselves), `RuleCall.overflows_iff` (a parameter is not finite when it is a literal beyond the range of doubles) and
`Session.reported_comesBack`.
-/

namespace FieldRules

open Json

/-! ### Errors -/

namespace FieldError

private theorem readable_toValue (e : FieldError) : Readable e.toValue := by
  refine .map ?_
  simp only [List.forall_mem_cons]
  refine ⟨.string _, .map ?_, .string _, .list ?_, .string _, by simp⟩
  · simp only [List.forall_mem_cons]
    exact ⟨.string _, .string _, by simp⟩
  · exact List.forall_mem_map.2 fun p _ => p.readable_toValue

/-- An error comes back with the parameters that are read from the ones it has. -/
theorem readJson_written (e : FieldError) :
    readJson ⟨.text, 128⟩ (.ofValue e.toValue) =
      (RuleParam.readJsonList ⟨.text, 127⟩ (.ofValue (.list (e.params.map RuleParam.toValue)))).map fun params =>
        { e with params } := by
  obtain ⟨field, spec, expression, params, message⟩ := e
  -- the slots before the parameters are taken in, and the message is left
  have hread : readJson ⟨.text, 128⟩ (.ofValue (toValue ⟨field, spec, expression, params, message⟩)) =
      (RuleParam.readJsonList ⟨.text, 127⟩ (.ofValue (.list (params.map RuleParam.toValue))) >>= fun params =>
        .ok ⟨field, spec, expression, params, ""⟩) >>= fun e =>
          shape.readMembers ⟨.text, 127⟩ true ["parameters", "rule_expression", "field_spec", "field_name"] e
            [(.string (some "message"), .string (some message))] := rfl
  rw [hread]
  cases RuleParam.readJsonList ⟨.text, 127⟩ (.ofValue (.list (params.map RuleParam.toValue))) <;> rfl

private theorem readWhole_written {e : FieldError} (h : ∀ p ∈ e.params, p.isFinite) {text : String}
    (htext : text = render e.toValue ∨ text = renderPretty e.toValue) :
    ∃ params, readWhole readJson text = .ok { e with params } ∧ List.Forall₂ RuleParam.ComesBack e.params params := by
  obtain ⟨params, hread, hback⟩ := RuleParam.readJsonList_written (show 1 < (Scope.mk .text 127).budget by decide) h
  refine ⟨params, ?_, hback⟩
  rw [readWhole_of_read (Document.read_written e.readable_toValue htext), readJson_written, hread]
  rfl

private theorem readWhole_written_of_not_isFinite {e : FieldError} (h : ∃ p ∈ e.params, ¬ p.isFinite) {text : String}
    (htext : text = render e.toValue ∨ text = renderPretty e.toValue) :
    readWhole readJson text = .error (.mismatch (.noVariant "RuleParam")) := by
  rw [readWhole_of_read (Document.read_written e.readable_toValue htext), readJson_written,
    RuleParam.readJsonList_written_of_not_isFinite (by decide) h]
  rfl

end FieldError

/-! ### Literals beyond the range of doubles -/

/-- A literal beyond the range of doubles: halfway from the greatest double to the next power of two, or more. -/
def Numeral.Overflows (n : Numeral) : Prop := 2 ^ 1024 - 2 ^ 970 ≤ n.decimal.value

private theorem Numeral.toBinary64_of_overflows {n : Numeral} (h : n.Overflows) :
    n.toBinary64 = .infinity n.negative := by
  have hvalue : 0 ≤ n.decimal.value := by
    unfold Decimal.value
    positivity
  rw [toBinary64_eq, Binary64.ofDecimal_eq_ofRank]
  exact Binary64.ofRank_of_top_le (not_lt.1 (mt (Binary64.rankOf_lt_top_iff hvalue).1 (not_lt.2 h)))

/-- Some parameter of a token is a literal beyond the range of doubles. -/
def RuleCall.Overflows (token : String) : Prop :=
  ∃ name inner, Form token name inner ∧
    ∃ raw ∈ rawParams inner, ∃ n, Numeral.ofLiteral? raw.toList = some n ∧ n.Overflows

private theorem RuleParam.isFinite_ofRaw_iff {raw : String} :
    (ofRaw raw).isFinite ↔ ∀ n, Numeral.ofLiteral? raw.toList = some n → ¬ n.Overflows := by
  cases hliteral : Numeral.ofLiteral? raw.toList with
  | none =>
    have htext : ¬ Numeral.NumericText raw.toList := by
      rw [← Numeral.isSome_ofLiteral?_iff, hliteral]
      simp
    simp [ofRaw_of_not_numeric htext, isFinite]
  | some n =>
    rw [ofRaw_of_literal hliteral, isFinite, Numeral.toBinary64_eq, Binary64.isFinite_ofDecimal_iff, ← not_le]
    simp [Numeral.Overflows]

theorem RuleCall.overflows_iff {token : String} {call : RuleCall} (h : parse token = .ok call) :
    Overflows token ↔ ∃ p ∈ call.params, ¬ p.isFinite := by
  obtain ⟨inner, hform, hparams⟩ := parse_eq_ok_iff.1 h
  have hraws : (∃ p ∈ call.params, ¬ p.isFinite) ↔
      ∃ raw ∈ rawParams inner, ∃ n, Numeral.ofLiteral? raw.toList = some n ∧ n.Overflows := by
    rw [hparams]
    simp only [List.mem_map, exists_exists_and_eq_and, RuleParam.isFinite_ofRaw_iff, not_forall, not_not, exists_prop]
  rw [hraws]
  constructor
  · rintro ⟨name', inner', hform', hraw⟩
    obtain ⟨-, rfl⟩ := hform.unique hform'
    exact hraw
  · exact fun hraw => ⟨_, inner, hform, hraw⟩

/-! ### What a session reports -/

namespace Session

/-- An error has the parameters that its rule is read with. -/
private theorem FailsWith.exists_call {source : FieldSource} {registry : Registry} {spec : FieldSpec} {e : FieldError}
    (h : FailsWith source registry spec e) :
    ∃ call, RuleCall.parse e.expression = .ok call ∧ e.params = call.params := by
  obtain ⟨field, token, -, hjudged⟩ := h
  cases hjudged with
  | failed hparse => exact ⟨_, hparse, rfl⟩

private theorem failsWith_of_reported {s : Session} {errors : List FieldError}
    (hreport : .reported errors ∈ s.report.events) :
    ∀ e ∈ errors, FailsWith s.source s.registry e.spec e := by
  rw [report_eq] at hreport
  cases hresult : s.evaluate.result with
  | error fault => simp [hresult, handedOn] at hreport
  | ok found =>
    obtain rfl : errors = found := by simpa [hresult, handedOn] using hreport
    exact (walk_eq_ok_iff.1 hresult).2.2

/-- What becomes of a reported error that is written as JSON, in one line or over many. When its rule has no literal
beyond the range of doubles, it is read back with all that it says, with as many parameters, texts as the same texts and
numbers as numbers. When its rule has one, it is not read back: the parameter is written as `null`. -/
theorem reported_comesBack (s : Session) {errors : List FieldError} {e : FieldError} {text : String}
    (hreport : .reported errors ∈ s.report.events) (he : e ∈ errors)
    (htext : text = render e.toValue ∨ text = renderPretty e.toValue) :
    (¬ RuleCall.Overflows e.expression → ∃ params, readWhole FieldError.readJson text = .ok { e with params } ∧
      List.Forall₂ RuleParam.ComesBack e.params params) ∧
    (RuleCall.Overflows e.expression →
      readWhole FieldError.readJson text = .error (.mismatch (.noVariant "RuleParam"))) := by
  obtain ⟨call, hparse, hparams⟩ := (failsWith_of_reported hreport e he).exists_call
  rw [RuleCall.overflows_iff hparse, ← hparams]
  constructor
  · intro hfinite
    refine FieldError.readWhole_written (fun p hp => ?_) htext
    by_contra hnot
    exact hfinite ⟨p, hp, hnot⟩
  · exact fun hinfinite => FieldError.readWhole_written_of_not_isFinite hinfinite htext

/-- A number and a text come back. -/
theorem reported_comesBack_pin :
    let rule := "digits_between(3,many)"
    let s := Session.mk (Record.ofList [.text "pin" "ab"]).find? .standard [⟨"pin", rule⟩]
    let e := FieldError.mk "pin" ⟨"pin", rule⟩ rule [.ofRaw "3", .text "many"]
      "The pin should have between 3 and many characters."
    let text := "\x7b\"field_name\":\"pin\"," ++
      "\"field_spec\":\x7b\"field\":\"pin\",\"rules\":\"digits_between(3,many)\"\x7d," ++
      "\"rule_expression\":\"digits_between(3,many)\",\"parameters\":[3.0,\"many\"]," ++
      "\"message\":\"The pin should have between 3 and many characters.\"\x7d"
    .reported [e] ∈ s.report.events ∧ text = render e.toValue ∧ ¬ RuleCall.Overflows rule ∧
      ∃ params, readWhole FieldError.readJson text = .ok { e with params } ∧
        List.Forall₂ RuleParam.ComesBack e.params params := by
  intro rule s e text
  have hreport : .reported [e] ∈ s.report.events := by decide +kernel
  have htext : text = render e.toValue := by decide +kernel
  have hfinite : ¬ RuleCall.Overflows rule := by
    have hparse : RuleCall.parse rule = .ok ⟨"digits_between", e.params⟩ := by decide +kernel
    rw [RuleCall.overflows_iff hparse]
    decide +kernel
  exact ⟨hreport, htext, hfinite, (reported_comesBack s hreport List.mem_cons_self (.inl htext)).1 hfinite⟩

section Zeros

variable (count : Nat)

private theorem ofLiteral?_zeros :
    Numeral.ofLiteral? (String.ofList ('1' :: List.replicate count '0')).toList =
      some ⟨false, '1' :: List.replicate count '0', [], 0⟩ := by
  have hdigit : ∀ c ∈ '1' :: List.replicate count '0', c.isDigit :=
    List.forall_mem_cons.2 ⟨rfl, fun c hc => by rw [List.eq_of_mem_replicate hc]; rfl⟩
  refine Numeral.ofLiteral?_eq_some_iff.2 ⟨⟨hdigit, by simp, rfl, by simp⟩, ?_⟩
  simp [Numeral.literal, Numeral.tail]

private theorem overflows_zeros (h : 309 ≤ count) :
    Numeral.Overflows ⟨false, '1' :: List.replicate count '0', [], 0⟩ := by
  have hdigits : natOfDigits ('1' :: List.replicate count '0') = 10 ^ count := by
    rw [← List.singleton_append, natOfDigits_append_zeros]
    exact Nat.mul_one _
  have hlarge : (2 : ℚ) ^ 1024 ≤ 10 ^ 309 := by
    have hnat : Nat.pow 2 1024 ≤ Nat.pow 10 309 := by decide +kernel
    exact_mod_cast hnat
  calc (2 : ℚ) ^ 1024 - 2 ^ 970 ≤ 2 ^ 1024 := sub_le_self _ (by positivity)
    _ ≤ 10 ^ 309 := hlarge
    _ ≤ 10 ^ count := pow_le_pow_right₀ (by norm_num) h
    _ = Decimal.value ⟨natOfDigits ('1' :: List.replicate count '0' ++ []), 0 - 0⟩ := by
      rw [List.append_nil, hdigits, Decimal.value]
      simp

end Zeros

/-- A literal beyond the range of doubles is no list of types that a photo could have. -/
private theorem exists_reported_huge {huge : String} {n : Numeral} (hliteral : Numeral.ofLiteral? huge.toList = some n)
    (hoverflows : n.Overflows) :
    let rule := "file_type" ++ "(" ++ huge ++ ")"
    let s := Session.mk (Record.ofList [.text "photo" "a.gif"]).find? .standard [⟨"photo", rule⟩]
    ∃ e, .reported [e] ∈ s.report.events ∧ ∃ p ∈ e.params, ¬ p.isFinite := by
  intro rule s
  have hnum : Numeral.NumericText huge.toList :=
    Numeral.isSome_ofLiteral?_iff.1 (Option.isSome_iff_exists.2 ⟨n, hliteral⟩)
  have hparam : RuleParam.ofRaw huge = .number (.infinity n.negative) := by
    rw [RuleParam.ofRaw_of_literal hliteral, Numeral.toBinary64_of_overflows hoverflows]
  have hparse : RuleCall.parse rule = .ok ⟨"file_type", [.number (.infinity n.negative)]⟩ := by
    rw [← hparam]
    exact RuleCall.parse_applied (by decide) (RuleCall.isInner_of_numericText hnum)
      (hnum.not_mem rfl (by decide) (by decide))
  obtain ⟨d, hd, hname, hcount, heval⟩ := BuiltIn.exists_fileType
  have hfind : Registry.standard.find? "file_type" = some d := Registry.find?_standard_eq_some_iff.2 ⟨hd, hname⟩
  have hfield : s.source "photo" = some (.text "photo" "a.gif") := by rfl
  have hbar : '|' ∉ rule.toList := by simp [rule, hnum.not_mem (c := '|') rfl]
  have hfails : d.evaluate (.text "photo" "a.gif") [.number (.infinity n.negative)] = .ok false := by
    rw [heval]
    cases n.negative <;> decide +kernel
  have hresult := evaluate_token hfield hbar (.failed hparse hfind hcount hfails)
  have hreport : .reported [⟨"photo", ⟨"photo", rule⟩, rule, [.number (.infinity n.negative)],
      Message.render d.template "photo" [.number (.infinity n.negative)]⟩] ∈ s.report.events := by
    rw [report_eq, hresult]
    exact List.mem_cons_self
  exact ⟨_, hreport, _, List.mem_cons_self, by simp [RuleParam.isFinite, Binary64.isFinite]⟩

/-- An error whose rule has a one with 309 zeros for its parameter is not read back. -/
theorem not_reported_comesBack_huge :
    let rule := "file_type" ++ "(" ++ String.ofList ('1' :: List.replicate 309 '0') ++ ")"
    let s := Session.mk (Record.ofList [.text "photo" "a.gif"]).find? .standard [⟨"photo", rule⟩]
    ∃ e, .reported [e] ∈ s.report.events ∧ ¬ ∃ e', readWhole FieldError.readJson (render e.toValue) = .ok e' := by
  obtain ⟨e, hreport, hinfinite⟩ := exists_reported_huge (ofLiteral?_zeros 309) (overflows_zeros 309 le_rfl)
  refine ⟨e, hreport, ?_⟩
  rintro ⟨e', he'⟩
  rw [FieldError.readWhole_written_of_not_isFinite hinfinite (.inl rfl)] at he'
  cases he'

end Session

end FieldRules
