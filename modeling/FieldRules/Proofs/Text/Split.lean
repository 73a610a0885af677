import FieldRules.Text.Split

/-!
# Splitting and joining

Splitting at a separator undoes joining with it. The key facts: `intercalate_pieces` (joining the pieces restores the
text), `pieces_intercalate` (splitting restores the joined parts when none of them contains the separator),
`length_pieces_intercalate` (every separator inside a part makes one more piece) and `empty_mem_split_iff` (where
separators have to stand for a piece to be empty).
-/

namespace FieldRules.Text

variable {sep : Char}

private theorem pieces_cons_self (sep : Char) (cs : List Char) : pieces sep (sep :: cs) = [] :: pieces sep cs := by
  simp [pieces]

private theorem pieces_cons_of_ne {c : Char} (h : c ≠ sep) (cs : List Char) :
    pieces sep (c :: cs) = (pieces sep cs).modifyHead (c :: ·) := by
  obtain ⟨first, others, hpieces⟩ := List.exists_cons_of_ne_nil (pieces_ne_nil sep cs)
  rw [hpieces]
  simp [pieces, h, hpieces]

/-- The pieces are those of the splitting of core. -/
private theorem pieces_eq_splitOn (sep : Char) (cs : List Char) : pieces sep cs = cs.splitOn sep := by
  induction cs with
  | nil => rfl
  | cons c rest ih =>
    rw [List.splitOn_cons_eq_if_modifyHead, ← ih]
    by_cases h : c = sep
    · subst h
      simp [pieces_cons_self]
    · simp [pieces_cons_of_ne h, h]

theorem intercalate_pieces (sep : Char) (cs : List Char) : [sep].intercalate (pieces sep cs) = cs := by
  rw [pieces_eq_splitOn, List.intercalate_splitOn]

theorem pieces_intercalate {parts : List (List Char)} (h : ∀ l ∈ parts, sep ∉ l) (hne : parts ≠ []) :
    pieces sep ([sep].intercalate parts) = parts := by
  rw [pieces_eq_splitOn, List.splitOn_intercalate sep h hne]

theorem pieces_append_cons_self (sep : Char) (cs cs' : List Char) :
    pieces sep (cs ++ sep :: cs') = pieces sep cs ++ pieces sep cs' := by
  induction cs with
  | nil => rw [List.nil_append, pieces_cons_self]; rfl
  | cons c rest ih =>
    by_cases hc : c = sep
    · subst hc
      rw [List.cons_append, pieces_cons_self, pieces_cons_self, ih, List.cons_append]
    · obtain ⟨first, others, hpieces⟩ := List.exists_cons_of_ne_nil (pieces_ne_nil sep rest)
      rw [List.cons_append, pieces_cons_of_ne hc, pieces_cons_of_ne hc, ih, hpieces]
      rfl

private theorem length_pieces (sep : Char) (cs : List Char) : (pieces sep cs).length = cs.count sep + 1 := by
  induction cs with
  | nil => rfl
  | cons c rest ih =>
    by_cases h : c = sep
    · subst h
      simp [pieces_cons_self, ih]
    · simp [pieces_cons_of_ne h, ih, h]

private theorem not_mem_of_mem_pieces {cs l : List Char} (h : l ∈ pieces sep cs) : sep ∉ l := by
  induction cs generalizing l with
  | nil =>
    obtain rfl : l = [] := by simpa [pieces] using h
    simp
  | cons c rest ih =>
    by_cases hc : c = sep
    · subst hc
      rw [pieces_cons_self] at h
      rcases List.mem_cons.1 h with rfl | h
      · simp
      · exact ih h
    · obtain ⟨first, others, hpieces⟩ := List.exists_cons_of_ne_nil (pieces_ne_nil sep rest)
      rw [pieces_cons_of_ne hc, hpieces] at h
      rw [hpieces] at ih
      rcases List.mem_cons.1 h with rfl | h
      · have := ih List.mem_cons_self
        simp [this, Ne.symm hc]
      · exact ih (List.mem_cons_of_mem _ h)

private theorem count_intercalate (sep : Char) {parts : List (List Char)} (hne : parts ≠ []) :
    ([sep].intercalate parts).count sep + 1 = parts.flatten.count sep + parts.length := by
  induction parts with
  | nil => exact absurd rfl hne
  | cons l rest ih =>
    cases rest with
    | nil => simp
    | cons m others =>
      have := ih (by simp)
      simp only [List.intercalate_cons_cons, List.count_append, List.count_singleton_self, List.flatten_cons,
        List.length_cons] at this ⊢
      omega

/-- Splitting joined parts gives one piece for each part and one more for each separator inside a part. -/
theorem length_pieces_intercalate (sep : Char) {parts : List (List Char)} (hne : parts ≠ []) :
    (pieces sep ([sep].intercalate parts)).length = parts.flatten.count sep + parts.length := by
  rw [length_pieces, count_intercalate sep hne]

/-- When there are as many pieces as parts, no part contains the separator. -/
private theorem not_mem_of_length_pieces {parts : List (List Char)} (hne : parts ≠ [])
    (h : (pieces sep ([sep].intercalate parts)).length = parts.length) : ∀ l ∈ parts, sep ∉ l := by
  rw [length_pieces_intercalate sep hne] at h
  have hcount : parts.flatten.count sep = 0 := by omega
  intro l hl hsep
  exact List.count_eq_zero.1 hcount (List.mem_flatten.2 ⟨l, hl, hsep⟩)

theorem mem_intercalate {c : Char} (h : c ≠ sep) {parts : List (List Char)} :
    c ∈ [sep].intercalate parts ↔ ∃ l ∈ parts, c ∈ l := by
  induction parts with
  | nil => simp
  | cons l rest ih =>
    cases rest with
    | nil => simp
    | cons m others =>
      rw [List.intercalate_cons_cons, List.mem_append, List.mem_append, ih]
      simp [h]

theorem intercalate_eq_nil_iff {parts : List (List Char)} (hne : parts ≠ []) :
    [sep].intercalate parts = [] ↔ parts = [[]] := by
  cases parts with
  | nil => contradiction
  | cons l rest =>
    cases rest with
    | nil => simp
    | cons m others => simp [List.intercalate_cons_cons]

private theorem mem_of_mem_pieces {c : Char} {cs l : List Char} (hl : l ∈ pieces sep cs) (hc : c ∈ l) : c ∈ cs := by
  have hne : c ≠ sep := by
    rintro rfl
    exact not_mem_of_mem_pieces hl hc
  rw [← intercalate_pieces sep cs, mem_intercalate hne]
  exact ⟨l, hl, hc⟩

theorem pieces_of_not_mem {cs : List Char} (h : sep ∉ cs) : pieces sep cs = [cs] := by
  have hparts : ∀ l ∈ [cs], sep ∉ l := by simpa using h
  have hsplit := pieces_intercalate hparts (by simp)
  rwa [List.intercalate_singleton] at hsplit

/-! ### Empty pieces -/

private theorem nil_mem_pieces_iff {cs : List Char} :
    [] ∈ pieces sep cs ↔ (cs = [] ∨ cs.head? = some sep) ∨ [] ∈ (pieces sep cs).tail := by
  cases cs with
  | nil => simp [pieces]
  | cons c rest =>
    by_cases hc : c = sep
    · subst hc
      simp [pieces_cons_self]
    · obtain ⟨first, others, hpieces⟩ := List.exists_cons_of_ne_nil (pieces_ne_nil sep rest)
      simp [pieces_cons_of_ne hc, hpieces, hc]

private theorem nil_mem_tail_pieces_iff {cs : List Char} :
    [] ∈ (pieces sep cs).tail ↔ cs.getLast? = some sep ∨ [sep, sep] <:+: cs := by
  induction cs with
  | nil => simp [pieces]
  | cons c rest ih =>
    by_cases hc : c = sep
    · -- what follows a separator is split as a text of its own
      subst hc
      rw [pieces_cons_self, List.tail_cons, nil_mem_pieces_iff, ih, List.infix_cons_iff, List.cons_prefix_cons]
      cases rest with
      | nil => simp
      | cons d others => simp [or_left_comm, eq_comm]
    · have htail : (pieces sep (c :: rest)).tail = (pieces sep rest).tail := by
        rw [pieces_cons_of_ne hc]
        cases pieces sep rest <;> rfl
      rw [htail, ih, List.infix_cons_iff, List.cons_prefix_cons]
      cases rest with
      | nil => simp [hc]
      | cons d others => simp [Ne.symm hc]

/-! ### Splitting strings -/

theorem split_of_not_mem {s : String} (h : sep ∉ s.toList) : split sep s = [s] := by
  rw [split, pieces_of_not_mem h, List.map_singleton, String.ofList_toList]

/-- A piece is empty when there is no text at all, when a separator stands at one of its ends, and when two stand next to
each other. -/
theorem empty_mem_split_iff {s : String} :
    "" ∈ split sep s ↔ s = "" ∨ s.toList.head? = some sep ∨ s.toList.getLast? = some sep ∨ [sep, sep] <:+: s.toList := by
  have hmem : "" ∈ split sep s ↔ [] ∈ pieces sep s.toList := by simp [split]
  rw [hmem, nil_mem_pieces_iff, nil_mem_tail_pieces_iff, String.toList_eq_nil_iff, or_assoc]

theorem length_split (sep : Char) (s : String) : (split sep s).length = s.toList.count sep + 1 := by
  rw [split, List.length_map, length_pieces]

theorem not_mem_of_mem_split {sep : Char} {s : String} : ∀ piece ∈ split sep s, sep ∉ piece.toList := by
  intro piece hpiece
  obtain ⟨l, hl, rfl⟩ := List.mem_map.1 hpiece
  simpa using not_mem_of_mem_pieces hl

theorem mem_of_mem_split {sep c : Char} {s piece : String} (hpiece : piece ∈ split sep s) (hc : c ∈ piece.toList) :
    c ∈ s.toList := by
  obtain ⟨l, hl, rfl⟩ := List.mem_map.1 hpiece
  exact mem_of_mem_pieces hl (by simpa using hc)

theorem intercalate_split {sep : Char} {joiner : String} (hj : joiner.toList = [sep]) (s : String) :
    joiner.intercalate (split sep s) = s := by
  have hmap : (split sep s).map String.toList = pieces sep s.toList := by
    rw [split, List.map_map]
    simp
  rw [← String.toList_inj, String.toList_intercalate, hj, hmap, intercalate_pieces]

/-- Splitting two texts with a separator between them gives the pieces of both. -/
theorem split_append {sep : Char} {joiner : String} (hj : joiner.toList = [sep]) (s t : String) :
    split sep (s ++ joiner ++ t) = split sep s ++ split sep t := by
  have htext : (s ++ joiner ++ t).toList = s.toList ++ sep :: t.toList := by simp [hj]
  rw [split, htext, pieces_append_cons_self, List.map_append]
  rfl

theorem split_intercalate {sep : Char} {joiner : String} (hj : joiner.toList = [sep]) {texts : List String}
    (hne : texts ≠ []) (h : ∀ s ∈ texts, sep ∉ s.toList) : split sep (joiner.intercalate texts) = texts := by
  have hparts : ∀ l ∈ texts.map String.toList, sep ∉ l := by
    intro l hl
    obtain ⟨s, hs, rfl⟩ := List.mem_map.1 hl
    exact h s hs
  rw [split, String.toList_intercalate, hj, pieces_intercalate hparts (by simpa using hne), List.map_map]
  simp

/-- When splitting joined texts gives as many pieces, none of the texts contains the separator. -/
theorem not_mem_of_length_split {sep : Char} {joiner : String} (hj : joiner.toList = [sep]) {texts : List String}
    (hne : texts ≠ []) (h : (split sep (joiner.intercalate texts)).length = texts.length) :
    ∀ s ∈ texts, sep ∉ s.toList := by
  rw [split, List.length_map, String.toList_intercalate, hj] at h
  intro s hs
  exact not_mem_of_length_pieces (by simpa using hne) (by simpa using h) _ (List.mem_map_of_mem hs)

end FieldRules.Text
