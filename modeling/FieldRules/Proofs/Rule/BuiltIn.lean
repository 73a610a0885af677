import FieldRules.Rule.BuiltIn
import Mathlib.Data.List.Basic

/-!
# Built-in evaluators

What the evaluators come to when they have as many parameters as their rules declare. The key facts:
`BuiltIn.digitsBetween_pair` and `BuiltIn.fileType_singleton` (the two that look at parameters), and
`BuiltIn.evaluate_eq_error` (bounds in the wrong order are all that an evaluator gives up on).
-/

namespace FieldRules.BuiltIn

theorem digitsBetween_pair (field : Field) (min max : RuleParam) :
    digitsBetween field [min, max] =
      if looselyGreater min max then .error (boundsFault field.name min max)
      else
        let length := Binary64.ofNat field.valueOrEmpty.length
        .ok (field.valueOrEmpty.isEmpty && min.loose.isZero ||
          !(length.less min.loose || max.loose.less length)) := by
  by_cases hgreater : looselyGreater min max
  · simp [digitsBetween, param, hgreater, bind, Except.bind, throw, throwThe, MonadExceptOf.throw]
  · cases hempty : field.valueOrEmpty.isEmpty && min.loose.isZero <;>
      simp [digitsBetween, param, hgreater, hempty, bind, Except.bind, pure, Except.pure]

theorem fileType_singleton (field : Field) (p : RuleParam) :
    fileType field [p] =
      .ok (field.valueOrEmpty.isEmpty || (Text.split ' ' p.display).any fun type =>
        (Text.lower type).toList.isSuffixOf (Text.lower field.valueOrEmpty).toList) := by
  cases hempty : field.valueOrEmpty.isEmpty <;>
    simp [fileType, param, hempty, bind, Except.bind, pure, Except.pure]

/-- With as many parameters as its rule declares, a built-in evaluator gives up on bounds in the wrong order alone. -/
theorem evaluate_eq_error {d : RuleDefinition} (hd : d ∈ definitions) {field : Field} {params : List RuleParam}
    {fault : Fault} (hcount : params.length = d.parameterCount) (h : d.evaluate field params = .error fault) :
    ∃ min max, d.name = "digits_between" ∧ params = [min, max] ∧ looselyGreater min max ∧
      fault = boundsFault field.name min max := by
  simp only [definitions, List.mem_cons, List.not_mem_nil, or_false] at hd
  rcases hd with rfl | rfl | rfl | rfl | rfl | rfl
  · cases h
  · cases h
  · cases h
  · obtain ⟨min, max, rfl⟩ := List.length_eq_two.1 hcount
    simp only [digitsBetween_pair] at h
    split at h
    · rename_i hgreater
      exact ⟨min, max, rfl, rfl, hgreater, (Except.error.inj h).symm⟩
    · cases h
  · cases h
  · obtain ⟨p, rfl⟩ := List.length_eq_one_iff.1 hcount
    simp only [fileType_singleton] at h
    cases h

end FieldRules.BuiltIn
