import FieldRules.Proofs.Number.Value
import FieldRules.Proofs.Rule.BuiltIn
import Mathlib.Tactic.Tauto

/-!
# Numbers of characters

What `digits_between` answers when its bounds stand in order. The key facts: `BuiltIn.digitsBetween_empty` (which bounds let
an empty value pass) and `BuiltIn.digitsBetween_interval` (bounds that are numbers are the ends of an interval).
-/

namespace FieldRules.BuiltIn

open Binary64

/-- An empty value is measured like any other, unless the lower bound is zero. -/
private theorem digitsBetween_of_empty {field : Field} {min max : RuleParam} (hempty : field.valueOrEmpty = "")
    (hordered : ¬ looselyGreater min max) :
    digitsBetween field [min, max] =
      .ok (min.loose.isZero || !((zero false).less min.loose || max.loose.less (zero false))) := by
  have hlength : ofNat "".length = zero false := ofNat_zero
  simp only [digitsBetween_pair, if_neg hordered, hempty, hlength]
  rfl

/-- An empty value passes when the lower bound is zero. It passes as well when the lower bound lies below zero or is no
number, unless the upper bound lies below zero. Among the other lower bounds only zero lets it pass. -/
theorem digitsBetween_empty {field : Field} {min max : RuleParam} (hempty : field.valueOrEmpty = "")
    (hordered : ¬ looselyGreater min max) :
    (digitsBetween field [min, max] = .ok true ↔
      min.loose.isZero ∨
        (min.loose.less (zero false) ∨ min.loose.isNaN) ∧ ¬ max.loose.less (zero false)) ∧
    (¬ min.loose.less (zero false) → ¬ min.loose.isNaN →
      (digitsBetween field [min, max] = .ok true ↔ min.loose.isZero)) := by
  have hpasses : digitsBetween field [min, max] = .ok true ↔
      min.loose.isZero ∨
        (min.loose.less (zero false) ∨ min.loose.isNaN) ∧ ¬ max.loose.less (zero false) := by
    have hmeasured : digitsBetween field [min, max] = .ok true ↔
        min.loose.isZero ∨ ¬ (zero false).less min.loose ∧ ¬ max.loose.less (zero false) := by
      simp [digitsBetween_of_empty hempty hordered]
    rw [hmeasured, not_zero_less_iff]
    tauto
  refine ⟨hpasses, fun hbelow hnan => ?_⟩
  rw [hpasses, or_iff_left]
  rintro ⟨hlow | hlow, -⟩
  · exact hbelow hlow
  · exact hnan hlow

theorem digitsBetween_empty_one_three :
    let field : Field := { name := "pin" }
    let min := RuleParam.number (ofNat 1)
    let max := RuleParam.text " 3"
    field.valueOrEmpty = "" ∧ ¬ looselyGreater min max ∧ ¬ min.loose.less (zero false) ∧ ¬ min.loose.isNaN ∧
      ¬ digitsBetween field [min, max] = .ok true := by
  intro field min max
  have hordered : ¬ looselyGreater min max := by decide +kernel
  have hbelow : ¬ min.loose.less (zero false) := by decide +kernel
  have hnan : ¬ min.loose.isNaN := by decide +kernel
  have hzero : ¬ min.loose.isZero := by decide +kernel
  exact ⟨rfl, hordered, hbelow, hnan, fun h => hzero (((digitsBetween_empty rfl hordered).2 hbelow hnan).1 h)⟩

/-- An empty value passes with a lower bound of minus one. -/
theorem not_digitsBetween_empty_zero :
    ¬ ∀ (field : Field) (min max : RuleParam), field.value = none ∨ field.value = some "" → ¬ looselyGreater min max →
      digitsBetween field [min, max] = .ok true → min.loose.isZero := by
  intro h
  have hordered : ¬ looselyGreater (.number (ofNat 1).neg) (.number (ofNat 3)) := by decide +kernel
  have hpasses : digitsBetween (.text "pin" "") [.number (ofNat 1).neg, .number (ofNat 3)] = .ok true := by
    decide +kernel
  have hzero : ¬ (RuleParam.number (ofNat 1).neg).loose.isZero := by decide +kernel
  exact hzero (h (.text "pin" "") _ _ (.inr rfl) hordered hpasses)

/-! ### Numbers as bounds -/

/-- Whether the number of characters keeps to both bounds, the empty value being no exception. -/
def lengthTest (field : Field) (min max : Binary64) : Bool :=
  let length := ofNat field.valueOrEmpty.length
  !(length.less min || max.less length)

/-- Under a lower bound of zero an empty value keeps to any bounds in order. -/
private theorem lengthTest_of_empty {field : Field} {min max : Binary64} (hempty : field.valueOrEmpty = "")
    (hzero : min.isZero) (hordered : ¬ max.less min) :
    lengthTest field min max := by
  have hlength : ofNat field.valueOrEmpty.length = zero false := by
    rw [hempty]
    exact ofNat_zero
  have hmin : ¬ (zero false).less min := not_zero_less_iff.2 (.inl hzero)
  have hmax : ¬ max.less (zero false) := by
    intro hless
    obtain ⟨place, hplace, hbelow⟩ := less_zero_iff.1 hless
    exact hordered (less_iff.2 ⟨place, 0, hplace, place_eq_zero_iff.2 hzero, hbelow⟩)
  simp [lengthTest, hlength, hmin, hmax]

/-- Between numbers in order every value is measured by its length, the empty one too. -/
private theorem digitsBetween_numbers {field : Field} {min max : Binary64} (hordered : ¬ max.less min) :
    digitsBetween field [.number min, .number max] = .ok (lengthTest field min max) := by
  have haccepted : ¬ looselyGreater (.number min) (.number max) := hordered
  have hmeasured : digitsBetween field [.number min, .number max] =
      .ok (field.valueOrEmpty.isEmpty && min.isZero || lengthTest field min max) := by
    simp only [digitsBetween_pair, if_neg haccepted, RuleParam.loose, lengthTest]
  rw [hmeasured]
  cases hspecial : field.valueOrEmpty.isEmpty && min.isZero with
  | false => rw [Bool.false_or]
  | true =>
    rw [Bool.and_eq_true, String.isEmpty_iff] at hspecial
    rw [lengthTest_of_empty hspecial.1 hspecial.2 hordered, Bool.true_or]

private theorem digitsBetween_numbers_eq_error_iff {field : Field} {min max : Binary64} {fault : Fault} :
    digitsBetween field [.number min, .number max] = .error fault ↔
      max.less min ∧ fault = boundsFault field.name (.number min) (.number max) := by
  by_cases hgreater : max.less min
  · have hrejected : looselyGreater (.number min) (.number max) := hgreater
    rw [digitsBetween_pair, if_pos hrejected, Except.error.injEq, eq_comm]
    simp [hgreater]
  · rw [digitsBetween_numbers hgreater]
    simp [hgreater]

private theorem lengthTest_iff {field : Field} {min max : Binary64} {low high : Extended} (hmin : min.value? = some low)
    (hmax : max.value? = some high) (hlength : field.valueOrEmpty.length < 2 ^ 53) :
    lengthTest field min max ↔ low ≤ field.valueOrEmpty.length ∧ field.valueOrEmpty.length ≤ high := by
  have hvalue := value?_ofNat hlength
  rw [← not_lt, ← not_lt, ← less_iff_value hvalue hmin, ← less_iff_value hmax hvalue]
  simp [lengthTest]

/-- Two numbers are rejected as bounds exactly when the lower one is greater, whatever the field holds. Otherwise the
length alone decides, for empty values as for all others, and it passes exactly when it lies in the interval between the
bounds. -/
theorem digitsBetween_interval (field : Field) {min max : Binary64} (hmin : ¬ min.isNaN) (hmax : ¬ max.isNaN) :
    ∃ low high, min.value? = some low ∧ max.value? = some high ∧
      (∀ fault, digitsBetween field [.number min, .number max] = .error fault ↔
        high < low ∧ fault = boundsFault field.name (.number min) (.number max)) ∧
      (low ≤ high → digitsBetween field [.number min, .number max] = .ok (lengthTest field min max)) ∧
      (low ≤ high → field.valueOrEmpty.length < 2 ^ 53 →
        (digitsBetween field [.number min, .number max] = .ok true ↔
          low ≤ field.valueOrEmpty.length ∧ field.valueOrEmpty.length ≤ high)) := by
  obtain ⟨low, hlow⟩ := exists_value_iff.2 hmin
  obtain ⟨high, hhigh⟩ := exists_value_iff.2 hmax
  have hless : max.less min ↔ high < low := less_iff_value hhigh hlow
  have hanswer (hordered : low ≤ high) :
      digitsBetween field [.number min, .number max] = .ok (lengthTest field min max) :=
    digitsBetween_numbers (mt hless.1 (not_lt.2 hordered))
  refine ⟨low, high, hlow, hhigh, fun fault => ?_, hanswer, fun hordered hlength => ?_⟩
  · rw [digitsBetween_numbers_eq_error_iff, hless]
  · rw [hanswer hordered, Except.ok.injEq]
    exact lengthTest_iff hlow hhigh hlength

theorem digitsBetween_interval_unbounded :
    let field : Field := { name := "pin" }
    ¬ (zero true).isNaN ∧ ¬ (infinity false).isNaN ∧
      digitsBetween field [.number (zero true), .number (infinity false)] = .ok true := by
  intro field
  have hmin : ¬ (zero true).isNaN := by decide
  have hmax : ¬ (infinity false).isNaN := by decide
  have hlength : field.valueOrEmpty.length < 2 ^ 53 := Nat.two_pow_pos 53
  obtain ⟨low, high, hlow, hhigh, -, -, hpasses⟩ := digitsBetween_interval field hmin hmax
  obtain rfl : ⊤ = high := Option.some.inj hhigh
  have hbelow : low ≤ field.valueOrEmpty.length := by
    have hnot : ¬ (ofNat field.valueOrEmpty.length).less (zero true) := by decide +kernel
    exact not_lt.1 (mt (less_iff_value (value?_ofNat hlength) hlow).2 hnot)
  exact ⟨hmin, hmax, (hpasses le_top hlength).2 ⟨hbelow, le_top⟩⟩

end FieldRules.BuiltIn
