import FieldRules.Text.Units
import Mathlib.Data.String.Basic
import Mathlib.Tactic.SplitIfs

/-!
# The order of UTF-16 units

Two texts are compared by their UTF-16 units at the first characters in which they differ. The key facts:
`units16_lt_iff` and `units16_lt_iff_of_surrogates` (the order is that of the characters, and the opposite one when a
character above U+FFFF meets one from U+E000 to U+FFFF), and `units16_lt_or_gt` (of two different texts one comes first).
-/

namespace FieldRules.Text

/-- A character above U+FFFF and one from U+E000 to U+FFFF, which its surrogates come before. -/
def SurrogatesFirst (c d : Char) : Prop := 0xFFFF < c.toNat ∧ 0xE000 ≤ d.toNat ∧ d.toNat ≤ 0xFFFF

/-- The first characters in which two texts differ. -/
def firstDifference : List Char → List Char → Option (Char × Char)
  | c :: cs, d :: ds => if c = d then firstDifference cs ds else some (c, d)
  | _, _ => none

/-- The first characters in which two texts differ are one above U+FFFF and one from U+E000 to U+FFFF. -/
def SurrogatesDecide (s t : String) : Prop :=
  ∃ c d, firstDifference s.toList t.toList = some (c, d) ∧ (SurrogatesFirst c d ∨ SurrogatesFirst d c)

instance (c d : Char) : Decidable (SurrogatesFirst c d) :=
  inferInstanceAs (Decidable (0xFFFF < c.toNat ∧ 0xE000 ≤ d.toNat ∧ d.toNat ≤ 0xFFFF))

instance (s t : String) : Decidable (SurrogatesDecide s t) :=
  decidable_of_iff (∃ p ∈ firstDifference s.toList t.toList, SurrogatesFirst p.1 p.2 ∨ SurrogatesFirst p.2 p.1)
    ⟨fun ⟨p, hp, h⟩ => ⟨p.1, p.2, hp, h⟩, fun ⟨c, d, hdifference, h⟩ => ⟨(c, d), hdifference, h⟩⟩

private theorem charLt_iff {c d : Char} : c < d ↔ c.toNat < d.toNat := Iff.rfl

private theorem charUnits_ne_nil (c : Char) : charUnits c ≠ [] := by
  unfold charUnits
  dsimp only
  split <;> simp

/-- Two different characters are told apart by their first units, or by their second ones if both have two. -/
private theorem charUnits_append_lt_iff {c d : Char} (h : c ≠ d) (xs ys : List Nat) :
    charUnits c ++ xs < charUnits d ++ ys ↔ SurrogatesFirst c d ∨ c < d ∧ ¬ SurrogatesFirst d c := by
  have hne : c.toNat ≠ d.toNat := mt Char.toNat_inj.1 h
  have hc : c.toNat.isValidChar := c.valid
  have hd : d.toNat.isValidChar := d.valid
  unfold Nat.isValidChar at hc hd
  rw [charLt_iff]
  unfold charUnits SurrogatesFirst
  dsimp only
  split_ifs <;> simp only [List.cons_append, List.nil_append, List.cons_lt_cons_iff] <;> omega

/-! ### Texts -/

private theorem firstDifference_self (cs : List Char) : firstDifference cs cs = none := by
  induction cs with
  | nil => rfl
  | cons c cs ih => rw [firstDifference, if_pos rfl, ih]

private theorem firstDifference_swap (cs ds : List Char) :
    firstDifference ds cs = (firstDifference cs ds).map Prod.swap := by
  fun_induction firstDifference cs ds with
  | case1 cs d ds ih => simpa [firstDifference] using ih
  | case2 c cs d ds hne => simp [firstDifference, Ne.symm hne]
  | case3 cs ds hcons =>
    cases cs with
    | nil => cases ds <;> rfl
    | cons c cs =>
      cases ds with
      | nil => rfl
      | cons d ds => exact absurd rfl (hcons c cs d ds rfl)

theorem surrogatesDecide_comm {s t : String} : SurrogatesDecide s t ↔ SurrogatesDecide t s := by
  have hswap {s t : String} (h : SurrogatesDecide s t) : SurrogatesDecide t s := by
    obtain ⟨c, d, hdifference, hsurrogates⟩ := h
    exact ⟨d, c, by rw [firstDifference_swap, hdifference]; rfl, hsurrogates.symm⟩
  exact ⟨hswap, hswap⟩

private theorem append_lt_append_iff (xs ys zs : List Nat) : xs ++ ys < xs ++ zs ↔ ys < zs := by
  induction xs with
  | nil => rfl
  | cons x xs ih => rw [List.cons_append, List.cons_append, List.cons_lt_cons_self, ih]

/-- The first characters that differ decide, in the order of characters and in that of units. -/
private theorem units_lt_iff_of_difference {cs ds : List Char} {c d : Char} (h : firstDifference cs ds = some (c, d)) :
    (cs < ds ↔ c < d) ∧
      (cs.flatMap charUnits < ds.flatMap charUnits ↔ SurrogatesFirst c d ∨ c < d ∧ ¬ SurrogatesFirst d c) := by
  fun_induction firstDifference cs ds with
  | case1 cs e ds ih =>
    rw [List.cons_lt_cons_self, List.flatMap_cons, List.flatMap_cons, append_lt_append_iff]
    exact ih h
  | case2 a cs b ds hne =>
    obtain ⟨rfl, rfl⟩ := Prod.mk.inj (Option.some.inj h)
    refine ⟨?_, ?_⟩
    · simp [List.cons_lt_cons_iff, hne]
    · rw [List.flatMap_cons, List.flatMap_cons, charUnits_append_lt_iff hne]
  | case3 => cases h

/-- A text that goes on where the other one ends comes after it. -/
private theorem units_lt_iff_of_no_difference {cs ds : List Char} (h : firstDifference cs ds = none) :
    cs.flatMap charUnits < ds.flatMap charUnits ↔ cs < ds := by
  fun_induction firstDifference cs ds with
  | case1 cs e ds ih =>
    rw [List.cons_lt_cons_self, List.flatMap_cons, List.flatMap_cons, append_lt_append_iff]
    exact ih h
  | case2 a cs b ds hne => cases h
  | case3 cs ds hcons =>
    cases ds with
    | nil => simp
    | cons d ds =>
      cases cs with
      | nil =>
        obtain ⟨u, us, hunits⟩ := List.exists_cons_of_ne_nil (charUnits_ne_nil d)
        simp [hunits]
      | cons c cs => exact absurd rfl (hcons c cs d ds rfl)

/-- Texts are in the order of their characters, unless surrogates decide. -/
theorem units16_lt_iff {s t : String} (h : ¬ SurrogatesDecide s t) : units16 s < units16 t ↔ s < t := by
  rw [units16, units16, String.lt_iff]
  cases hdifference : firstDifference s.toList t.toList with
  | none => exact units_lt_iff_of_no_difference hdifference
  | some pair =>
    obtain ⟨c, d⟩ := pair
    obtain ⟨hchars, hunits⟩ := units_lt_iff_of_difference hdifference
    have hcd : ¬ SurrogatesFirst c d := fun hcd => h ⟨c, d, hdifference, .inl hcd⟩
    have hdc : ¬ SurrogatesFirst d c := fun hdc => h ⟨c, d, hdifference, .inr hdc⟩
    rw [hchars, hunits, or_iff_right hcd, and_iff_left hdc]

/-- Where surrogates decide, the order is the opposite one. -/
theorem units16_lt_iff_of_surrogates {s t : String} (h : SurrogatesDecide s t) : units16 s < units16 t ↔ t < s := by
  obtain ⟨c, d, hdifference, hsurrogates⟩ := h
  obtain ⟨hchars, hunits⟩ := units_lt_iff_of_difference hdifference
  have hst : s ≠ t := by
    rintro rfl
    rw [firstDifference_self] at hdifference
    cases hdifference
  have hgt : t < s ↔ ¬ s < t := ⟨lt_asymm, hst.lt_or_gt.resolve_left⟩
  rw [hgt, String.lt_iff, hchars, units16, units16, hunits, charLt_iff]
  unfold SurrogatesFirst at *
  omega

/-- Of two different texts one comes first. -/
theorem units16_lt_or_gt {s t : String} (h : s ≠ t) : units16 s < units16 t ∨ units16 t < units16 s := by
  by_cases hsurrogates : SurrogatesDecide s t
  · rw [units16_lt_iff_of_surrogates hsurrogates, units16_lt_iff_of_surrogates (surrogatesDecide_comm.1 hsurrogates)]
    exact h.lt_or_gt.symm
  · rw [units16_lt_iff hsurrogates, units16_lt_iff (mt surrogatesDecide_comm.1 hsurrogates)]
    exact h.lt_or_gt

end FieldRules.Text
