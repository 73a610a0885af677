import FieldRules.Execute
import FieldRules.Explanation
import FieldRules.Proofs.Rule.RoundTrip

/-!
# Canonical forms are stable

The canonical form of a call that was read from a token may be read as another call, since some numbers come back as
texts, but never as one that looks different. The key facts: `RuleParam.display_reread` (a parameter and what its text is
read as have the same text) and `RuleCall.canonical_stable` (the call that is read from a canonical form has this
canonical form itself, and the checks before an evaluator is asked make the same of both).
-/

namespace FieldRules

open Binary64

private theorem NumberStyle.render_zero {x : Binary64} (h : x.isZero) : display.render x = "0" := by
  cases x with
  | nan => cases h
  | infinity negative => cases h
  | finite negative rank =>
    have hrank : rank.val = 0 := by simpa [isZero] using h
    have hzero : display.magnitude (Decimal.shortest display.tie 0) = ['0'] := by decide +kernel
    have hsign : (negative && (rank.val != 0 || display.signedZero)) = false := by simp [hrank, display]
    rw [render, hsign, hrank, hzero]
    rfl

/-- A parameter and what its text is read as have the same text. -/
theorem RuleParam.display_reread (p : RuleParam) : p.reread.display = p.display := by
  cases p with
  | text s => rfl
  | number x =>
    by_cases hplain : x.IsPlain
    · rw [reread_of_isPlain hplain]
      by_cases hzero : x.isZero
      · rw [if_pos hzero]
        have hpositive : (zero false).isZero := by decide
        exact (NumberStyle.render_zero hpositive).trans (NumberStyle.render_zero hzero).symm
      · rw [if_neg hzero]
    · rw [reread_of_not_isPlain hplain]
      rfl

namespace RuleCall

/-- Only the name and the texts of the parameters stand in a canonical form. -/
private theorem canonical_congr {a b : RuleCall} (hname : a.name = b.name)
    (hparams : a.params.map RuleParam.display = b.params.map RuleParam.display) : a.canonical = b.canonical := by
  obtain ⟨name, params⟩ := a
  obtain ⟨name', params'⟩ := b
  obtain rfl : name = name' := hname
  cases params with
  | nil =>
    obtain rfl : params' = [] := by simpa using hparams.symm
    rfl
  | cons p rest =>
    obtain ⟨p', rest', rfl⟩ : ∃ p' rest', params' = p' :: rest' :=
      List.exists_cons_of_ne_nil (by rintro rfl; cases hparams)
    simp only at hparams
    simp only [canonical, hparams]

end RuleCall

namespace Registry

variable {call back : RuleCall}

/-- Looking a rule up and counting parameters needs no more of a call than its name, its number of parameters, and its
canonical form for the fault. -/
private theorem resolve_congr (r : Registry) (field : String) (hname : back.name = call.name)
    (hcount : back.params.length = call.params.length) (hcanonical : back.canonical = call.canonical) :
    r.resolve field back = r.resolve field call := by
  simp only [resolve, hname, hcount, hcanonical]

private theorem check_congr (r : Registry) (hname : back.name = call.name)
    (hcount : back.params.length = call.params.length) (hcanonical : back.canonical = call.canonical) :
    (r.check back).mapError Rejection.message = (r.check call).mapError Rejection.message := by
  have hargument : back.argumentCount = call.argumentCount := congrArg (· + 1) hcount
  simp only [check, hname, hargument]
  cases r.lookup call.name with
  | error fault => rfl
  | ok d =>
    by_cases harity : d.arity = call.argumentCount
    · simp [Except.mapError, bind, Except.bind, harity]
    · simp [Except.mapError, bind, Except.bind, harity, throw, throwThe, MonadExceptOf.throw, Rejection.message, hcount,
        hcanonical]

end Registry

/-- Tokens that are read as calls which the checks make the same of are explained alike. -/
private theorem Explanation.message_congr {r : Registry} {token token' : String} {call back : RuleCall}
    (hread : RuleCall.read token = .ok call) (hback : RuleCall.read token' = .ok back)
    (hcheck : (r.check back).mapError Rejection.message = (r.check call).mapError Rejection.message) :
    (ofToken (some r) token').rejection.map Rejection.message =
      (ofToken (some r) token).rejection.map Rejection.message := by
  simp only [ofToken, hread, hback]
  cases hleft : r.check back <;> cases hright : r.check call <;> simp [hleft, hright, Except.mapError] at hcheck ⊢
  exact hcheck

namespace RuleCall

/-- The canonical form of a call that was read from a token is read as a call of the same name, with as many parameters
and the same canonical form, also when a number comes back as text. So whatever rules are there, looking the rule up and
counting its parameters makes the same of the token and of its canonical form, both in a session and when rule
expressions are checked. -/
theorem canonical_stable {token : String} {call : RuleCall} (h : parse token = .ok call) :
    ∃ back, parse call.canonical = .ok back ∧ back.name = call.name ∧ back.params.length = call.params.length ∧
      back.canonical = call.canonical ∧
      (∀ (r : Registry) (field : String), (read call.canonical >>= r.resolve field) = (read token >>= r.resolve field)) ∧
      ∀ r : Registry, (Explanation.ofToken (some r) call.canonical).rejection.map Rejection.message =
        (Explanation.ofToken (some r) token).rejection.map Rejection.message := by
  obtain ⟨hback, -⟩ := reparse_canonical h
  have hcount : (call.params.map RuleParam.reread).length = call.params.length := List.length_map ..
  have hcanonical : canonical ⟨call.name, call.params.map RuleParam.reread⟩ = call.canonical := by
    refine canonical_congr rfl ?_
    simp only [List.map_map]
    exact List.map_congr_left fun p _ => p.display_reread
  have hread : read token = .ok call := read_eq_ok_iff.2 h
  have hreadBack : read call.canonical = .ok ⟨call.name, call.params.map RuleParam.reread⟩ := read_eq_ok_iff.2 hback
  refine ⟨⟨call.name, call.params.map RuleParam.reread⟩, hback, rfl, hcount, hcanonical, ?_, ?_⟩
  · intro r field
    rw [hread, hreadBack]
    exact r.resolve_congr field rfl hcount hcanonical
  · intro r
    exact Explanation.message_congr hread hreadBack (r.check_congr rfl hcount hcanonical)

/-- A number that is written with an exponent comes back as text, and a negative zero without its sign. -/
theorem canonical_stable_exponent :
    let call : RuleCall := ⟨"file_type", [.number (ofDecimal false ⟨1, 21⟩), .number (zero true), .text "x"]⟩
    parse "file_type(1000000000000000000000,-0,x)" = .ok call ∧ call.canonical = "file_type(1e+21,0,x)" ∧
      ∃ back, parse call.canonical = .ok back ∧ back.name = call.name ∧ back.params.length = call.params.length ∧
        back ≠ call ∧ back.canonical = call.canonical := by
  intro call
  have hparse : parse "file_type(1000000000000000000000,-0,x)" = .ok call := by decide +kernel
  have hdiffers : parse call.canonical ≠ .ok call := by decide +kernel
  obtain ⟨back, hback, hname, hcount, hcanonical, -⟩ := canonical_stable hparse
  refine ⟨hparse, by decide +kernel, back, hback, hname, hcount, ?_, hcanonical⟩
  rintro rfl
  exact hdiffers hback

end RuleCall

end FieldRules
