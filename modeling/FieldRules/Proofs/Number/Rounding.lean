import FieldRules.Number.Binary64
import Mathlib.Order.Monotone.Basic
import Mathlib.Tactic.Linarith
import Mathlib.Tactic.Ring

/-!
# Rounding to a rank

The rank nearest to a fraction. The key facts: `units` is strictly increasing and `rankBelow` is its lower adjoint
(`le_rankBelow_iff`); a rank is reached exactly from the midpoint below it on (`lt_nearestRank_iff`), so that the
nearest rank grows with the fraction (`nearestRank_mono`) and depends on its value alone (`nearestRank_congr`), the
magnitude of a rank is rounded to that rank (`nearestRank_units`), and rounding goes together with multiplying by powers
of two (`nearestRank_mul_two_pow`).
-/

namespace FieldRules.Binary64

/-! ### Magnitudes of ranks -/

theorem units_of_lt {k : Nat} (h : k < 2 * binade) : units k = k := by
  unfold units
  split
  · rfl
  · simp only [binade] at *
    have hdiv : k / 0x10000000000000 = 1 := by omega
    have hmod : 0x10000000000000 + k % 0x10000000000000 = k := by omega
    rw [hdiv, hmod]
    exact Nat.mul_one k

/-- The magnitude of the rank with the given place in a binade above the first. -/
private theorem units_binade {shift place : Nat} (h : place < binade) :
    units ((shift + 1) * binade + place) = (binade + place) * 2 ^ shift := by
  have hdiv : ((shift + 1) * binade + place) / binade = shift + 1 := by simp only [binade] at *; omega
  have hmod : ((shift + 1) * binade + place) % binade = place := by simp only [binade] at *; omega
  have hle : ¬ (shift + 1) * binade + place < binade := by simp only [binade] at *; omega
  unfold units
  rw [if_neg hle, hdiv, hmod]
  rfl

/-- Every rank past the first binade has a binade and a place in it. -/
private theorem exists_place {k : Nat} (h : ¬ k < binade) :
    ∃ shift place, place < binade ∧ k = (shift + 1) * binade + place := by
  refine ⟨k / binade - 1, k % binade, Nat.mod_lt _ (by decide), ?_⟩
  simp only [binade] at *
  omega

/-- The step from a rank to the next one in a binade above the first. -/
private theorem units_succ {shift place : Nat} (h : place < binade) :
    units ((shift + 1) * binade + place + 1) = units ((shift + 1) * binade + place) + 2 ^ shift := by
  rw [units_binade h, ← Nat.succ_mul]
  by_cases hlast : place + 1 < binade
  · rw [Nat.add_assoc, units_binade hlast, Nat.add_succ]
  · -- the last place of a binade: the next rank opens a binade with steps twice as large
    have hnext : (shift + 1) * binade + place + 1 = (shift + 1 + 1) * binade + 0 := by
      simp only [binade] at *; omega
    have hfull : Nat.succ (binade + place) = binade * 2 := by simp only [binade] at *; omega
    rw [hnext, units_binade (by decide), Nat.pow_succ, hfull, Nat.add_zero, Nat.mul_assoc, Nat.mul_comm 2]

theorem units_lt_succ (k : Nat) : units k < units (k + 1) := by
  by_cases hk : k < binade
  · have hlt : k + 1 < 2 * binade := by simp only [binade] at *; omega
    rw [units_of_lt (Nat.lt_of_succ_lt hlt), units_of_lt hlt]
    exact Nat.lt_succ_self k
  · obtain ⟨shift, place, hplace, rfl⟩ := exists_place hk
    rw [units_succ hplace]
    exact Nat.lt_add_of_pos_right (Nat.two_pow_pos shift)

/-- From the binade with steps of `2 ^ shift` on, magnitudes are multiples of this step. -/
theorem two_pow_dvd_units {shift k : Nat} (h : (shift + 1) * binade ≤ k) : 2 ^ shift ∣ units k := by
  obtain ⟨shift', place, hplace, rfl⟩ := exists_place (k := k) (by simp only [binade] at *; omega)
  rw [units_binade hplace]
  exact Dvd.dvd.mul_left (Nat.pow_dvd_pow 2 (by simp only [binade] at *; omega)) _

theorem units_add_two_pow_le {shift k : Nat} (h : (shift + 1) * binade ≤ k) : units k + 2 ^ shift ≤ units (k + 1) := by
  obtain ⟨shift', place, hplace, rfl⟩ := exists_place (k := k) (by simp only [binade] at *; omega)
  rw [units_succ hplace]
  exact Nat.add_le_add_left (Nat.pow_le_pow_right (by decide) (by simp only [binade] at *; omega)) _

/-- A magnitude is at most `2 ^ 53` times the step that leads to it. -/
theorem units_succ_le (k : Nat) : units (k + 1) ≤ 2 ^ 53 * (units (k + 1) - units k) := by
  by_cases hk : k < binade
  · have hlt : k + 1 < 2 * binade := by simp only [binade] at *; omega
    rw [units_of_lt (Nat.lt_of_succ_lt hlt), units_of_lt hlt]
    simp only [binade] at *
    omega
  · obtain ⟨shift, place, hplace, rfl⟩ := exists_place hk
    rw [units_succ hplace, Nat.add_sub_cancel_left, units_binade hplace, ← Nat.succ_mul]
    exact Nat.mul_le_mul_right _ (by simp only [binade] at *; omega)

/-- The magnitude at the same place so many binades further on. -/
theorem units_add_binades {k : Nat} (h : binade ≤ k) (shift : Nat) :
    units (k + shift * binade) = units k * 2 ^ shift := by
  obtain ⟨shift', place, hplace, rfl⟩ := exists_place (Nat.not_lt.2 h)
  have hrank : (shift' + 1) * binade + place + shift * binade = (shift' + shift + 1) * binade + place := by ring
  rw [hrank, units_binade hplace, units_binade hplace, Nat.pow_add, Nat.mul_assoc]

theorem units_strictMono : StrictMono units := strictMono_nat_of_lt_succ units_lt_succ

theorem units_le_iff {j k : Nat} : units j ≤ units k ↔ j ≤ k := units_strictMono.le_iff_le

/-- Twice a magnitude is a magnitude. -/
private theorem exists_units_double (k : Nat) : ∃ j, units j = units k * 2 := by
  by_cases hk : k < binade
  · refine ⟨k * 2, ?_⟩
    rw [units_of_lt (by omega), units_of_lt (by omega)]
  · obtain ⟨shift, place, hplace, rfl⟩ := exists_place hk
    refine ⟨(shift + 1 + 1) * binade + place, ?_⟩
    rw [units_binade hplace, units_binade hplace, Nat.pow_succ, Nat.mul_assoc]

/-- A number of up to 53 binary digits is a magnitude at every scale. -/
theorem exists_units_eq {n : Nat} (h : n < 2 * binade) (scale : Nat) : ∃ k, units k = n * 2 ^ scale := by
  induction scale with
  | zero => exact ⟨n, by rw [units_of_lt h, Nat.pow_zero, Nat.mul_one]⟩
  | succ scale ih =>
    obtain ⟨k, hk⟩ := ih
    obtain ⟨j, hj⟩ := exists_units_double k
    exact ⟨j, by rw [hj, hk, Nat.pow_succ, Nat.mul_assoc]⟩

/-- The rank below a number of steps past the first two binades: the step of its binade goes into the number at
least `2 ^ 52` and less than `2 ^ 53` times. -/
private theorem exists_place_rankBelow {steps : Nat} (h : ¬ steps < 2 * binade) :
    ∃ shift place, place < binade ∧ steps / 2 ^ (shift + 1) = binade + place ∧
      rankBelow steps = (shift + 1 + 1) * binade + place := by
  have h0 : steps ≠ 0 := by rintro rfl; exact h (by decide)
  have hlog : 53 ≤ Nat.log2 steps := (Nat.le_log2 h0).2 (Nat.le_of_not_lt h)
  obtain ⟨shift, hshift⟩ : ∃ shift, Nat.log2 steps = shift + 53 := ⟨Nat.log2 steps - 53, by omega⟩
  have hlow : 2 ^ (shift + 53) ≤ steps := hshift ▸ Nat.log2_self_le h0
  have hhigh : steps < 2 ^ (shift + 54) := by
    have := Nat.lt_log2_self (n := steps)
    rwa [hshift] at this
  have hpos : 0 < 2 ^ (shift + 1) := Nat.two_pow_pos _
  have hq1 : binade ≤ steps / 2 ^ (shift + 1) := by
    rw [Nat.le_div_iff_mul_le hpos]
    calc binade * 2 ^ (shift + 1) = 2 ^ 52 * 2 ^ (shift + 1) := rfl
      _ = 2 ^ (shift + 53) := by rw [← Nat.pow_add]; congr 1; omega
      _ ≤ steps := hlow
  have hq2 : steps / 2 ^ (shift + 1) < 2 * binade := by
    rw [Nat.div_lt_iff_lt_mul hpos]
    calc steps < 2 ^ (shift + 54) := hhigh
      _ = 2 ^ 53 * 2 ^ (shift + 1) := by rw [← Nat.pow_add]; congr 1; omega
      _ = 2 * binade * 2 ^ (shift + 1) := rfl
  obtain ⟨place, hplace⟩ : ∃ place, steps / 2 ^ (shift + 1) = binade + place := Nat.exists_eq_add_of_le hq1
  have hrank : rankBelow steps = (shift + 1) * binade + steps / 2 ^ (shift + 1) := by
    unfold rankBelow
    rw [hshift]
    rfl
  refine ⟨shift, place, by omega, hplace, ?_⟩
  rw [hrank, hplace, Nat.succ_mul (shift + 1), Nat.add_assoc]

/-- A number of steps lies between the magnitudes of the rank below it and of the next one. -/
private theorem rankBelow_bounds (steps : Nat) :
    units (rankBelow steps) ≤ steps ∧ steps < units (rankBelow steps + 1) := by
  by_cases hsmall : steps < 2 * binade
  · have hlog : Nat.log2 steps - 52 = 0 := by
      by_cases h0 : steps = 0
      · subst h0; decide
      · have := (Nat.log2_lt h0 (k := 53)).2 hsmall
        omega
    have hrank : rankBelow steps = steps := by
      unfold rankBelow
      rw [hlog]
      simp
    rw [hrank, units_of_lt hsmall]
    refine ⟨Nat.le_refl _, ?_⟩
    calc steps = units steps := (units_of_lt hsmall).symm
      _ < units (steps + 1) := units_lt_succ steps
  · obtain ⟨shift, place, hlt, hplace, hrank⟩ := exists_place_rankBelow hsmall
    rw [hrank, units_succ hlt, units_binade hlt, ← hplace]
    refine ⟨Nat.div_mul_le_self _ _, ?_⟩
    rw [Nat.mul_comm]
    exact Nat.lt_mul_div_succ steps (Nat.two_pow_pos _)

/-- The rank below a number of steps is the largest whose magnitude is not above it. -/
theorem le_rankBelow_iff {k steps : Nat} : k ≤ rankBelow steps ↔ units k ≤ steps := by
  obtain ⟨hlow, hhigh⟩ := rankBelow_bounds steps
  constructor
  · intro h
    exact Nat.le_trans (units_le_iff.2 h) hlow
  · intro h
    exact Nat.le_of_lt_succ (units_strictMono.lt_iff_lt.1 (Nat.lt_of_le_of_lt h hhigh))

private theorem rankBelow_units (k : Nat) : rankBelow (units k) = k := by
  apply Nat.le_antisymm
  · exact units_le_iff.1 (le_rankBelow_iff.1 (Nat.le_refl _))
  · exact le_rankBelow_iff.2 (Nat.le_refl _)

/-! ### The nearest rank -/

/-- A fraction is rounded past a rank when it lies above the midpoint to the next one, or on it and the rank is
odd. -/
theorem lt_nearestRank_iff {k num den : Nat} (hden : 0 < den) :
    k < nearestRank num den ↔ (units k + units (k + 1)) * den < 2 * num ∨
      ((units k + units (k + 1)) * den = 2 * num ∧ k % 2 = 1) := by
  have hlow (j : Nat) : j ≤ rankBelow (num / den) ↔ units j * den ≤ num := by
    rw [le_rankBelow_iff, Nat.le_div_iff_mul_le hden]
  have hnear : rankBelow (num / den) ≤ nearestRank num den ∧ nearestRank num den ≤ rankBelow (num / den) + 1 := by
    unfold nearestRank
    simp only
    split
    · omega
    · split
      · omega
      · split <;> omega
  have hstep : units k * den < units (k + 1) * den := Nat.mul_lt_mul_of_pos_right (units_lt_succ k) hden
  rw [Nat.add_mul]
  rcases Nat.lt_trichotomy k (rankBelow (num / den)) with hk | hk | hk
  · have := (hlow (k + 1)).1 hk
    constructor
    · intro _
      left
      omega
    · intro _
      omega
  · -- the rank is the one below the fraction: the two distances are compared
    have h1 := (hlow k).1 (Nat.le_of_eq hk)
    have hrest : 2 * (num - units k * den) = 2 * num - 2 * (units k * den) := by omega
    have hgap : (units (k + 1) - units k) * den = units (k + 1) * den - units k * den := Nat.sub_mul ..
    unfold nearestRank
    simp only [← hk, hrest, hgap]
    split
    · omega
    · split
      · omega
      · split <;> omega
  · have h1 : ¬ units k * den ≤ num := fun h => Nat.not_le_of_lt hk ((hlow k).2 h)
    constructor
    · intro _
      omega
    · intro _
      omega

private theorem le_of_forall_lt {a b : Nat} (h : ∀ k, k < a → k < b) : a ≤ b := by
  by_cases h0 : a = 0
  · omega
  · have := h (a - 1) (by omega)
    omega

/-- Rounding keeps the order of fractions. -/
theorem nearestRank_mono {num den num' den' : Nat} (hden : 0 < den) (hden' : 0 < den')
    (h : num * den' ≤ num' * den) : nearestRank num den ≤ nearestRank num' den' := by
  apply le_of_forall_lt
  intro k hk
  rw [lt_nearestRank_iff hden] at hk
  rw [lt_nearestRank_iff hden']
  generalize units k + units (k + 1) = m at *
  -- both midpoints are brought over the common denominator `den * den'`
  have hscale : 2 * num * den' ≤ 2 * num' * den := by
    rw [Nat.mul_assoc, Nat.mul_assoc]
    exact Nat.mul_le_mul_left 2 h
  have hcomm : m * den * den' = m * den' * den := Nat.mul_right_comm m den den'
  rcases hk with hk | ⟨hk, hodd⟩
  · left
    have hlt : m * den * den' < 2 * num * den' := Nat.mul_lt_mul_of_pos_right hk hden'
    apply Nat.lt_of_mul_lt_mul_right (a := den)
    omega
  · have hle : m * den' ≤ 2 * num' := by
      apply Nat.le_of_mul_le_mul_right _ hden
      rw [hk] at hcomm
      omega
    rcases Nat.lt_or_eq_of_le hle with hlt | heq
    · exact .inl hlt
    · exact .inr ⟨heq, hodd⟩

/-- Fractions of one value are rounded alike. -/
theorem nearestRank_congr {num den num' den' : Nat} (hden : 0 < den) (hden' : 0 < den')
    (h : num * den' = num' * den) : nearestRank num den = nearestRank num' den' :=
  Nat.le_antisymm (nearestRank_mono hden hden' (Nat.le_of_eq h)) (nearestRank_mono hden' hden (Nat.le_of_eq h.symm))

theorem nearestRank_units {k den : Nat} (hden : 0 < den) : nearestRank (units k * den) den = k := by
  unfold nearestRank
  simp only [Nat.mul_div_cancel _ hden, rankBelow_units, Nat.sub_self, Nat.mul_zero]
  rw [if_pos]
  exact Nat.mul_pos (Nat.sub_pos_of_lt (units_lt_succ k)) hden

/-- A fraction past the first binades may be multiplied by a power of two before it is rounded or after. -/
theorem nearestRank_mul_two_pow {num den : Nat} (hden : 0 < den) (h : binade < nearestRank num den) (shift : Nat) :
    nearestRank (num * 2 ^ shift) den = nearestRank num den + shift * binade := by
  have hscale (j : Nat) (hj : binade ≤ j) :
      j + shift * binade < nearestRank (num * 2 ^ shift) den ↔ j < nearestRank num den := by
    have hodd : (j + shift * binade) % 2 = j % 2 := by simp only [binade]; omega
    have hmidpoint : (units (j + shift * binade) + units (j + shift * binade + 1)) * den =
        (units j + units (j + 1)) * den * 2 ^ shift := by
      have hsucc : j + shift * binade + 1 = j + 1 + shift * binade := by omega
      rw [hsucc, units_add_binades hj, units_add_binades (by omega)]
      ring
    have hnum : 2 * (num * 2 ^ shift) = 2 * num * 2 ^ shift := by ring
    have hpos : 0 < 2 ^ shift := Nat.two_pow_pos shift
    rw [lt_nearestRank_iff hden, lt_nearestRank_iff hden, hodd, hmidpoint, hnum, Nat.mul_lt_mul_right hpos,
      Nat.mul_left_inj hpos.ne']
  apply Nat.le_antisymm
  · exact Nat.le_of_not_lt fun hlt => Nat.lt_irrefl _ ((hscale _ h.le).1 hlt)
  · have hbelow := (hscale (nearestRank num den - 1) (by omega)).2 (by omega)
    omega

/-! ### The double of a rank -/

theorem ofRank_inj {negative : Bool} {j k : Nat} (hk : k < top) (h : ofRank negative j = ofRank negative k) :
    j = k := by
  unfold ofRank at h
  rw [dif_pos hk] at h
  split at h
  · simpa using h
  · cases h

theorem isFinite_ofRank {negative : Bool} {rank : Nat} : (ofRank negative rank).isFinite ↔ rank < top := by
  unfold ofRank
  split
  · exact iff_of_true rfl ‹_›
  · exact iff_of_false (by simp [isFinite]) ‹_›

theorem ofRank_of_top_le {negative : Bool} {k : Nat} (h : top ≤ k) : ofRank negative k = infinity negative := by
  unfold ofRank
  rw [dif_neg (Nat.not_lt.2 h)]

end FieldRules.Binary64
