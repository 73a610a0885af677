import FieldRules.Text.Case
import Mathlib.Data.List.Infix

/-!
# Lower case in its context

Lower-casing goes character by character, except that a capital sigma closes a word or not, by what stands around it. The
key facts: `lowerAfter_congr` (of what stands before, only whether it ends in a letter matters), `lower_isSuffix_iff` (a
text that ends in a word still does after lower-casing both, unless the word opens with a final sigma and a letter stands
before it) and `toList_lower_of_ascii` (ASCII text is lower-cased letter by letter).
-/

namespace FieldRules.Text

/-- Whether case rules look past a character. -/
def isCaseIgnorable (c : Char) : Bool := inRanges caseIgnorableRanges c

/-- Whether the first character that case rules do not look past is a capital sigma at the end of its word. -/
def opensWithFinalSigma (cs : List Char) : Bool :=
  match cs.dropWhile isCaseIgnorable with
  | 'Σ' :: rest => !nextIsCased rest
  | _ => false

private theorem nextIsCased_cons_of_ignorable {c : Char} (h : isCaseIgnorable c) (cs : List Char) :
    nextIsCased (c :: cs) = nextIsCased cs := by
  have hc : inRanges caseIgnorableRanges c = true := h
  simp only [nextIsCased, List.dropWhile_cons_of_pos hc]

private theorem nextIsCased_cons_of_not_ignorable {c : Char} (h : ¬ isCaseIgnorable c) (cs : List Char) :
    nextIsCased (c :: cs) = inRanges casedRanges c := by
  have hc : ¬ inRanges caseIgnorableRanges c = true := h
  simp only [nextIsCased, List.dropWhile_cons_of_neg hc]

private theorem not_isCaseIgnorable_sigma : ¬ isCaseIgnorable 'Σ' := by decide +kernel

private theorem opensWithFinalSigma_cons_of_ignorable {c : Char} (h : isCaseIgnorable c) (cs : List Char) :
    opensWithFinalSigma (c :: cs) = opensWithFinalSigma cs := by
  simp only [opensWithFinalSigma, List.dropWhile_cons_of_pos h]

private theorem opensWithFinalSigma_sigma (cs : List Char) : opensWithFinalSigma ('Σ' :: cs) = !nextIsCased cs := by
  simp only [opensWithFinalSigma, List.dropWhile_cons_of_neg not_isCaseIgnorable_sigma]

private theorem opensWithFinalSigma_cons_of_other {c : Char} (h : ¬ isCaseIgnorable c) (hc : c ≠ 'Σ') (cs : List Char) :
    opensWithFinalSigma (c :: cs) = false := by
  simp only [opensWithFinalSigma, List.dropWhile_cons_of_neg h]
  split
  · rename_i heq
    exact absurd (List.cons.inj heq).1 hc
  · rfl

theorem opensWithFinalSigma_of_not_mem {cs : List Char} (h : 'Σ' ∉ cs) : opensWithFinalSigma cs = false := by
  unfold opensWithFinalSigma
  split
  · rename_i heq
    have hmem : 'Σ' ∈ cs.dropWhile isCaseIgnorable := by simp [heq]
    exact absurd ((List.dropWhile_suffix _).mem hmem) h
  · rfl

/-! ### What stands before a text -/

private theorem lowerAfter_sigma (before rest : List Char) :
    lowerAfter before ('Σ' :: rest) =
      (if nextIsCased before && !nextIsCased rest then 'ς' else 'σ') :: lowerAfter ('Σ' :: before) rest := rfl

private theorem lowerAfter_cons_of_ne {c : Char} (h : c ≠ 'Σ') (before rest : List Char) :
    lowerAfter before (c :: rest) = lowerChar c ++ lowerAfter (c :: before) rest := by
  rw [lowerAfter, if_neg h]

/-- Of what stands before a text, only whether it ends in a letter matters. -/
theorem lowerAfter_congr {before before' : List Char} (h : nextIsCased before = nextIsCased before')
    (cs : List Char) : lowerAfter before cs = lowerAfter before' cs := by
  induction cs generalizing before before' with
  | nil => rfl
  | cons c rest ih =>
    have hnext : nextIsCased (c :: before) = nextIsCased (c :: before') := by
      by_cases hc : isCaseIgnorable c
      · rw [nextIsCased_cons_of_ignorable hc, nextIsCased_cons_of_ignorable hc, h]
      · rw [nextIsCased_cons_of_not_ignorable hc, nextIsCased_cons_of_not_ignorable hc]
    by_cases hc : c = 'Σ'
    · subst hc
      rw [lowerAfter_sigma, lowerAfter_sigma, h, ih hnext]
    · rw [lowerAfter_cons_of_ne hc, lowerAfter_cons_of_ne hc, ih hnext]

/-- A text is lower-cased to as many characters behind any other text. -/
private theorem length_lowerAfter (before before' cs : List Char) :
    (lowerAfter before cs).length = (lowerAfter before' cs).length := by
  induction cs generalizing before before' with
  | nil => rfl
  | cons c rest ih =>
    by_cases hc : c = 'Σ'
    · subst hc
      rw [lowerAfter_sigma, lowerAfter_sigma, List.length_cons, List.length_cons, ih]
    · rw [lowerAfter_cons_of_ne hc, lowerAfter_cons_of_ne hc, List.length_append, List.length_append, ih]

theorem exists_lowerAfter_append (before cs cs' : List Char) :
    ∃ front, lowerAfter before (cs ++ cs') = front ++ lowerAfter (cs.reverse ++ before) cs' := by
  induction cs generalizing before with
  | nil => exact ⟨[], rfl⟩
  | cons c rest ih =>
    obtain ⟨front, hfront⟩ := ih (c :: before)
    rw [List.cons_append, lowerAfter, hfront, List.reverse_cons, List.append_assoc, List.singleton_append,
      ← List.append_assoc]
    exact ⟨_, rfl⟩

/-- Behind a letter a text is lower-cased as on its own, unless it opens with a final sigma. -/
private theorem lowerAfter_eq_iff {before cs : List Char} :
    lowerAfter before cs = lowerAfter [] cs ↔ ¬ (nextIsCased before ∧ opensWithFinalSigma cs) := by
  by_cases hbefore : nextIsCased before
  · simp only [hbefore, true_and]
    induction cs generalizing before with
    | nil => simp [lowerAfter, opensWithFinalSigma]
    | cons c rest ih =>
      by_cases hc : c = 'Σ'
      · -- the sigma itself is lower-cased in two ways, and what follows it in one
        subst hc
        have hrest : lowerAfter ('Σ' :: before) rest = lowerAfter ['Σ'] rest := by
          refine lowerAfter_congr ?_ rest
          rw [nextIsCased_cons_of_not_ignorable not_isCaseIgnorable_sigma,
            nextIsCased_cons_of_not_ignorable not_isCaseIgnorable_sigma]
        rw [lowerAfter_sigma, lowerAfter_sigma, hrest, opensWithFinalSigma_sigma, hbefore]
        cases nextIsCased rest <;> simp [nextIsCased]
      · rw [lowerAfter_cons_of_ne hc, lowerAfter_cons_of_ne hc, List.append_cancel_left_eq]
        by_cases hign : isCaseIgnorable c
        · have hempty : lowerAfter [c] rest = lowerAfter [] rest :=
            lowerAfter_congr (nextIsCased_cons_of_ignorable hign []) rest
          rw [hempty, opensWithFinalSigma_cons_of_ignorable hign]
          exact ih (by rwa [nextIsCased_cons_of_ignorable hign])
        · have hrest : lowerAfter (c :: before) rest = lowerAfter [c] rest := by
            refine lowerAfter_congr ?_ rest
            rw [nextIsCased_cons_of_not_ignorable hign, nextIsCased_cons_of_not_ignorable hign]
          simp [hrest, opensWithFinalSigma_cons_of_other hign hc]
  · have hnone : lowerAfter before cs = lowerAfter [] cs := lowerAfter_congr (by simpa [nextIsCased] using hbefore) cs
    simp [hnone, hbefore]

/-- A text that ends in a word still does when both are lower-cased, unless the word opens with a final sigma and what
stands before it ends in a letter. -/
theorem lower_isSuffix_iff {front word : String} :
    (lower word).toList <:+ (lower (front ++ word)).toList ↔
      ¬ (nextIsCased front.toList.reverse ∧ opensWithFinalSigma word.toList) := by
  obtain ⟨lowered, hlowered⟩ := exists_lowerAfter_append [] front.toList word.toList
  rw [List.append_nil] at hlowered
  rw [lower, lower, String.toList_ofList, String.toList_ofList, String.toList_append, hlowered, ← lowerAfter_eq_iff]
  constructor
  · rintro ⟨other, hother⟩
    exact (List.append_inj_right' hother (length_lowerAfter ..)).symm
  · intro h
    rw [h]
    exact List.suffix_append ..

/-! ### ASCII -/

/-- What holds of the ASCII characters by their codes holds of each of them. -/
theorem of_ascii {p : Char → Prop} (h : ∀ n < 128, p (Char.ofNat n)) {c : Char} (hc : c.toNat < 128) : p c := by
  have hchar := h c.toNat hc
  rwa [Char.ofNat_toNat] at hchar

/-- ASCII text is lower-cased letter by letter, whatever follows it. -/
theorem lowerAfter_append_of_ascii {cs : List Char} (h : ∀ c ∈ cs, c.toNat < 128) (before cs' : List Char) :
    lowerAfter before (cs ++ cs') = cs.map Char.toLower ++ lowerAfter (cs.reverse ++ before) cs' := by
  induction cs generalizing before with
  | nil => rfl
  | cons c rest ih =>
    obtain ⟨hc, hrest⟩ := List.forall_mem_cons.1 h
    have hsigma : c ≠ 'Σ' := by
      rintro rfl
      exact absurd hc (by decide)
    rw [List.cons_append, lowerAfter_cons_of_ne hsigma, lowerChar, if_pos hc, ih hrest]
    simp

private theorem lowerAfter_of_ascii {cs : List Char} (h : ∀ c ∈ cs, c.toNat < 128) (before : List Char) :
    lowerAfter before cs = cs.map Char.toLower := by
  have happend := lowerAfter_append_of_ascii h before []
  rwa [List.append_nil, lowerAfter, List.append_nil] at happend

/-- ASCII text is lower-cased letter by letter. -/
theorem toList_lower_of_ascii {s : String} (h : ∀ c ∈ s.toList, c.toNat < 128) :
    (lower s).toList = s.toList.map Char.toLower := by
  rw [lower, String.toList_ofList, lowerAfter_of_ascii h]

/-- Only ASCII characters have a lower-case letter of ASCII. -/
theorem isAscii_of_toLower {c : Char} (h : c.toLower.toNat < 128) : c.toNat < 128 := by
  unfold Char.toLower at h
  split at h
  · rename_i hupper
    exact lt_of_le_of_lt (UInt32.le_iff_toNat_le.1 hupper.2) (by decide)
  · exact h

theorem isAlpha_toLower {c : Char} (h : c.toNat < 128) : c.toLower.isAlpha = c.isAlpha :=
  of_ascii (p := fun c => c.toLower.isAlpha = c.isAlpha) (by decide) h

/-- ASCII text without letters is its own lower-case form. -/
theorem toList_lower_of_no_letter {s : String} (hascii : ∀ c ∈ s.toList, c.toNat < 128)
    (h : ∀ c ∈ s.toList, ¬ c.isAlpha) : (lower s).toList = s.toList := by
  have hmap : s.toList.map Char.toLower = s.toList.map id := by
    refine List.map_congr_left fun c hc => ?_
    exact of_ascii (p := fun c => ¬ c.isAlpha → c.toLower = c) (by decide) (hascii c hc) (h c hc)
  rw [toList_lower_of_ascii hascii, hmap, List.map_id]

end FieldRules.Text
