import FieldRules.Proofs.Text.Split
import FieldRules.Text.Lines

/-!
# Joining lines

Joining the lines of a text with line feeds restores the text but for the carriage returns that belonged to its line
breaks. The key facts: `intercalate_lines` and `withoutReturns_eq_self_iff`.
-/

namespace FieldRules.Text

/-- A text without the carriage returns before its line feeds. -/
def withoutReturns : List Char → List Char
  | [] => []
  | c :: rest => if c = '\r' ∧ rest.head? = some '\n' then withoutReturns rest else c :: withoutReturns rest

private theorem withoutReturns_of_return {c : Char} {rest : List Char} (h : c = '\r' ∧ rest.head? = some '\n') :
    withoutReturns (c :: rest) = withoutReturns rest := by
  rw [withoutReturns, if_pos h]

private theorem withoutReturns_of_other {c : Char} {rest : List Char} (h : ¬ (c = '\r' ∧ rest.head? = some '\n')) :
    withoutReturns (c :: rest) = c :: withoutReturns rest := by
  rw [withoutReturns, if_neg h]

theorem withoutReturns_of_not_mem {cs : List Char} (h : '\n' ∉ cs) : withoutReturns cs = cs := by
  induction cs with
  | nil => rfl
  | cons c rest ih =>
    have hrest : '\n' ∉ rest := fun hmem => h (List.mem_cons_of_mem _ hmem)
    have hhead : rest.head? ≠ some '\n' := fun hhead => hrest (List.mem_of_head? hhead)
    rw [withoutReturns_of_other fun hc => hhead hc.2, ih hrest]

private theorem length_withoutReturns_le (cs : List Char) : (withoutReturns cs).length ≤ cs.length := by
  induction cs with
  | nil => exact Nat.le_refl _
  | cons c rest ih =>
    rw [withoutReturns]
    split
    · exact Nat.le_succ_of_le ih
    · exact Nat.succ_le_succ ih

/-- Nothing is left out exactly when no carriage return stands before a line feed. -/
theorem withoutReturns_eq_self_iff {cs : List Char} : withoutReturns cs = cs ↔ ¬ ['\r', '\n'] <:+: cs := by
  induction cs with
  | nil => simp [withoutReturns]
  | cons c rest ih =>
    rw [withoutReturns, List.infix_cons_iff, not_or]
    have hopens : ['\r', '\n'] <+: c :: rest ↔ c = '\r' ∧ rest.head? = some '\n' := by
      rw [List.cons_prefix_cons, eq_comm]
      cases rest <;> simp [eq_comm]
    rw [hopens]
    split
    · rename_i hreturn
      -- something was left out, so what is left is too short
      have hlength := length_withoutReturns_le rest
      refine iff_of_false ?_ (fun h => h.1 hreturn)
      intro heq
      have := congrArg List.length heq
      simp only [List.length_cons] at this
      omega
    · rename_i hreturn
      simp [hreturn, ih]

theorem mem_of_mem_withoutReturns {c : Char} {cs : List Char} (h : c ∈ withoutReturns cs) : c ∈ cs := by
  induction cs with
  | nil => exact h
  | cons d rest ih =>
    rw [withoutReturns] at h
    split at h
    · exact List.mem_cons_of_mem _ (ih h)
    · exact (List.mem_cons.1 h).elim (fun hc => hc ▸ List.mem_cons_self) (fun h => List.mem_cons_of_mem _ (ih h))

/-- A line feed behind a text that does not end in a carriage return takes none with it. -/
theorem withoutReturns_concat {cs : List Char} (h : cs.getLast? ≠ some '\r') :
    withoutReturns (cs ++ ['\n']) = withoutReturns cs ++ ['\n'] := by
  induction cs with
  | nil => rfl
  | cons c rest ih =>
    cases rest with
    | nil =>
      have hc : c ≠ '\r' := by simpa using h
      simp [withoutReturns, hc]
    | cons d others =>
      rw [List.getLast?_cons_cons] at h
      by_cases hreturn : c = '\r' ∧ d = '\n'
      · have hhead : c = '\r' ∧ (d :: others).head? = some '\n' := by simpa using hreturn
        rw [List.cons_append, withoutReturns_of_return hhead, ← ih h]
        exact withoutReturns_of_return (by simpa using hreturn)
      · have hhead : ¬ (c = '\r' ∧ (d :: others).head? = some '\n') := by simpa using hreturn
        have hnext : withoutReturns (c :: (d :: others ++ ['\n'])) = c :: withoutReturns (d :: others ++ ['\n']) :=
          withoutReturns_of_other (by simpa using hreturn)
        rw [List.cons_append, hnext, withoutReturns_of_other hhead, ih h, List.cons_append]

private theorem dropReturn_cons (c : Char) (cs : List Char) :
    dropReturn (c :: cs) = if c = '\r' ∧ cs = [] then [] else c :: dropReturn cs := by
  unfold dropReturn
  cases cs with
  | nil => by_cases hc : c = '\r' <;> simp [hc]
  | cons d rest =>
    simp only [reduceCtorEq, and_false, if_false, List.getLast?_cons_cons, List.dropLast_cons_cons]
    split <;> rfl

/-- A line and its break are left without the carriage return that belongs to the break. -/
private theorem withoutReturns_append {line : List Char} (h : '\n' ∉ line) (rest : List Char) :
    withoutReturns (line ++ '\n' :: rest) = dropReturn line ++ '\n' :: withoutReturns rest := by
  induction line with
  | nil => simp [withoutReturns, dropReturn]
  | cons c line ih =>
    have hhead : (line ++ '\n' :: rest).head? = some '\n' ↔ line = [] := by
      cases line with
      | nil => simp
      | cons d others =>
        have hd : d ≠ '\n' := by
          rintro rfl
          exact h (by simp)
        simp [hd]
    have hrest := ih fun hmem => h (List.mem_cons_of_mem _ hmem)
    rw [List.cons_append, dropReturn_cons]
    split
    · rename_i hc
      obtain ⟨hc, rfl⟩ := hc
      rw [withoutReturns_of_return ⟨hc, hhead.2 rfl⟩, hrest]
      rfl
    · rename_i hc
      rw [withoutReturns_of_other (mt (And.imp_right hhead.1) hc), hrest, List.cons_append]

private theorem linesOfPieces_cons {line : List Char} {rest : List (List Char)} (h : rest ≠ []) :
    linesOfPieces (line :: rest) = dropReturn line :: linesOfPieces rest := by
  cases rest with
  | nil => exact absurd rfl h
  | cons piece others => rfl

private theorem linesOfPieces_of_not_mem {cs : List Char} (hne : cs ≠ []) (h : '\n' ∉ cs) :
    linesOfPieces (pieces '\n' cs) = [cs] := by
  rw [pieces_of_not_mem h, linesOfPieces, if_neg (by simpa using hne)]

private theorem linesOfPieces_append {line : List Char} (h : '\n' ∉ line) (rest : List Char) :
    linesOfPieces (pieces '\n' (line ++ '\n' :: rest)) = dropReturn line :: linesOfPieces (pieces '\n' rest) := by
  rw [pieces_append_cons_self, pieces_of_not_mem h, List.singleton_append, linesOfPieces_cons (pieces_ne_nil '\n' rest)]

private theorem linesOfPieces_ne_nil {cs : List Char} (hne : cs ≠ []) : linesOfPieces (pieces '\n' cs) ≠ [] := by
  by_cases h : '\n' ∈ cs
  · obtain ⟨line, rest, rfl, hline⟩ := List.eq_append_cons_of_mem h
    rw [linesOfPieces_append hline]
    exact List.cons_ne_nil _ _
  · rw [linesOfPieces_of_not_mem hne h]
    exact List.cons_ne_nil _ _

/-- Joining the lines of a text that does not end in a line feed gives the text without its carriage returns before line
feeds. -/
theorem intercalate_linesOfPieces {cs : List Char} (hne : cs ≠ []) (hlast : cs.getLast? ≠ some '\n') :
    ['\n'].intercalate (linesOfPieces (pieces '\n' cs)) = withoutReturns cs := by
  induction hn : cs.length using Nat.strongRecOn generalizing cs with
  | ind n ih =>
    by_cases h : '\n' ∈ cs
    · obtain ⟨line, rest, rfl, hline⟩ := List.eq_append_cons_of_mem h
      have hrest : rest ≠ [] := by
        rintro rfl
        simp at hlast
      have hlast' : rest.getLast? ≠ some '\n' := by
        obtain ⟨last, hlast'⟩ := Option.ne_none_iff_exists'.1 (mt List.getLast?_eq_none_iff.1 hrest)
        rw [List.getLast?_append, List.getLast?_cons, hlast'] at hlast
        rw [hlast']
        exact hlast
      have hlength : rest.length < n := by
        rw [← hn, List.length_append, List.length_cons]
        omega
      obtain ⟨first, others, hothers⟩ := List.exists_cons_of_ne_nil (linesOfPieces_ne_nil hrest)
      have hjoined := ih rest.length hlength hrest hlast' rfl
      rw [linesOfPieces_append hline, withoutReturns_append hline, ← hjoined, hothers, List.intercalate_cons_cons]
      simp
    · rw [linesOfPieces_of_not_mem hne h, withoutReturns_of_not_mem h, List.intercalate_singleton]

end FieldRules.Text
