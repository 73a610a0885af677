import FieldRules.Json.Printer
import FieldRules.Json.Token
import Mathlib.Data.List.Basic

/-!
# Text that reads as tokens

A text reads as some tokens when it gives them wherever it stands, with the tokens of what follows behind
(`Token.Reads`). A number does so only where nothing follows that could belong to it (`Token.ReadsApart`). The key
facts: `Token.Reads.append` (texts may be put one behind the other), `Token.ReadsApart.append` (so may a number and what
sets it apart) and `Token.reads_quote` (a quoted text reads as the string that was quoted).
-/

namespace FieldRules.Json.Token

/-- The tokens of a text, with any fuel that is enough for it. -/
def Scans (cs : List Char) (ts : List Token) : Prop := ∀ fuel, cs.length < fuel → scanWith fuel cs = ts

/-- A text that gives some tokens wherever it stands. -/
def Reads (text : List Char) (tokens : List Token) : Prop :=
  ∀ rest ts, Scans rest ts → Scans (text ++ rest) (tokens ++ ts)

/-- Whether a number that has begun can go on with a character. -/
def isNumberPart (c : Char) : Bool := c.isDigit || c == '.' || c == 'e' || c == 'E'

/-- What no number goes on with. -/
def EndsNumber (rest : List Char) : Prop := ∀ c, rest.head? = some c → isNumberPart c = false

/-- A text that gives some tokens wherever no number goes on behind it. -/
def ReadsApart (text : List Char) (tokens : List Token) : Prop :=
  ∀ rest ts, EndsNumber rest → Scans rest ts → Scans (text ++ rest) (tokens ++ ts)

private theorem scans_nil : Scans [] [] := by
  intro fuel h
  obtain ⟨n, rfl⟩ := Nat.exists_eq_add_one_of_ne_zero (Nat.ne_of_gt h)
  rfl

private theorem scans_cons {c : Char} {cs rest : List Char} {t : Token} {ts : List Token} (hc : isSpace c = false)
    (hnext : next? (c :: cs) = some (t, rest)) (hlen : rest.length ≤ cs.length) (h : Scans rest ts) :
    Scans (c :: cs) (t :: ts) := by
  intro fuel hfuel
  obtain ⟨n, rfl⟩ := Nat.exists_eq_add_one_of_ne_zero (Nat.ne_zero_of_lt hfuel)
  have hdrop : (c :: cs).dropWhile isSpace = c :: cs := List.dropWhile_cons_of_neg (by simp [hc])
  have hrest : scanWith n rest = ts := h n (by simp only [List.length_cons] at hfuel; omega)
  simp only [scanWith, hdrop, hnext, hrest]

private theorem scans_space {c : Char} {cs : List Char} {ts : List Token} (hc : isSpace c = true) (h : Scans cs ts) :
    Scans (c :: cs) ts := by
  intro fuel hfuel
  obtain ⟨n, rfl⟩ := Nat.exists_eq_add_one_of_ne_zero (Nat.ne_zero_of_lt hfuel)
  have hcs : scanWith (n + 1) cs = ts := h (n + 1) (by simp only [List.length_cons] at hfuel; omega)
  have hdrop : (c :: cs).dropWhile isSpace = cs.dropWhile isSpace := List.dropWhile_cons_of_pos hc
  simp only [scanWith, hdrop]
  simpa only [scanWith] using hcs

private theorem endsNumber_nil : EndsNumber [] := by
  rintro c ⟨⟩

private theorem endsNumber_cons {c : Char} (h : isNumberPart c = false) (rest : List Char) :
    EndsNumber (c :: rest) := by
  rintro d ⟨⟩
  exact h

theorem Reads.apart {text : List Char} {tokens : List Token} (h : Reads text tokens) : ReadsApart text tokens :=
  fun rest ts _ => h rest ts

theorem ReadsApart.scan {text : List Char} {tokens : List Token} (h : ReadsApart text tokens) :
    Token.scan text = tokens := by
  have hscan := h [] [] endsNumber_nil scans_nil
  rw [List.append_nil, List.append_nil] at hscan
  exact hscan _ (Nat.lt_succ_self _)

theorem reads_nil : Reads [] [] := fun _ _ h => h

theorem Reads.append {text text' : List Char} {tokens tokens' : List Token} (h : Reads text tokens)
    (h' : Reads text' tokens') : Reads (text ++ text') (tokens ++ tokens') := by
  intro rest ts hrest
  rw [List.append_assoc, List.append_assoc]
  exact h _ _ (h' rest ts hrest)

theorem Reads.append_apart {text text' : List Char} {tokens tokens' : List Token} (h : Reads text tokens)
    (h' : ReadsApart text' tokens') : ReadsApart (text ++ text') (tokens ++ tokens') := by
  intro rest ts hends hrest
  rw [List.append_assoc, List.append_assoc]
  exact h _ _ (h' rest ts hends hrest)

/-- What does not go on with a number sets the text before it apart. -/
theorem ReadsApart.append {text cs : List Char} {c : Char} {tokens tokens' : List Token} (h : ReadsApart text tokens)
    (hc : isNumberPart c = false) (h' : Reads (c :: cs) tokens') :
    Reads (text ++ c :: cs) (tokens ++ tokens') := by
  intro rest ts hrest
  rw [List.append_assoc, List.append_assoc]
  exact h _ _ (endsNumber_cons hc _) (h' rest ts hrest)

theorem reads_spaces {text : List Char} (h : ∀ c ∈ text, isSpace c = true) : Reads text [] := by
  intro rest ts hrest
  induction text with
  | nil => exact hrest
  | cons c cs ih =>
    obtain ⟨hc, hcs⟩ := List.forall_mem_cons.1 h
    exact scans_space hc (ih hcs)

/-- What the reader of one token takes whatever follows. -/
theorem reads_of_next {c : Char} {cs : List Char} {t : Token} (hc : isSpace c = false)
    (h : ∀ rest, next? (c :: cs ++ rest) = some (t, rest)) : Reads (c :: cs) [t] := by
  intro rest ts hrest
  exact scans_cons hc (h rest) (by simp) hrest

theorem readsApart_of_next {c : Char} {cs : List Char} {t : Token} (hc : isSpace c = false)
    (h : ∀ rest, EndsNumber rest → next? (c :: cs ++ rest) = some (t, rest)) : ReadsApart (c :: cs) [t] := by
  intro rest ts hends hrest
  exact scans_cons hc (h rest hends) (by simp) hrest

/-! ### Quoted text -/

private theorem hexPadded_control : ∀ n < 32, (Text.hexPadded 4 n).length = 4 ∧
    (digitsIn? 16 (Text.hexPadded 4 n)).map (ofDigitValues 16) = some n := by
  decide

private theorem pieces?_simpleEscape {e c : Char} (he : simpleEscape? e = some c) (rest : List Char) :
    pieces? ('\\' :: e :: rest) = (pieces? rest).map fun (ps, after) => (.char c :: ps, after) := by
  have hu : e ≠ 'u' := by
    rintro rfl
    cases he
  rw [pieces?]
  · cases pieces? rest <;> simp [he]
  · intro x y z w after h
    exact absurd h hu

private theorem pieces?_unit {x y z w : Char} {values : List Nat} (h : digitsIn? 16 [x, y, z, w] = some values)
    (rest : List Char) :
    pieces? ('\\' :: 'u' :: x :: y :: z :: w :: rest) =
      (pieces? rest).map fun (ps, after) => (.unit (ofDigitValues 16 values) :: ps, after) := by
  rw [pieces?]
  cases pieces? rest <;> simp [h]

/-- An escaped character is one piece, which stands for this character. -/
private theorem exists_piece (c : Char) :
    ∃ p, (∀ ps, joinPieces? (p :: ps) = (joinPieces? ps).map (c :: ·)) ∧
      ∀ rest, pieces? (escapeChar c ++ rest) = (pieces? rest).map fun (ps, after) => (p :: ps, after) := by
  unfold escapeChar
  split
  · exact ⟨.char '"', fun _ => rfl, pieces?_simpleEscape rfl⟩
  · exact ⟨.char '\\', fun _ => rfl, pieces?_simpleEscape rfl⟩
  · exact ⟨.char '\x08', fun _ => rfl, pieces?_simpleEscape rfl⟩
  · exact ⟨.char '\x0c', fun _ => rfl, pieces?_simpleEscape rfl⟩
  · exact ⟨.char '\n', fun _ => rfl, pieces?_simpleEscape rfl⟩
  · exact ⟨.char '\r', fun _ => rfl, pieces?_simpleEscape rfl⟩
  · exact ⟨.char '\t', fun _ => rfl, pieces?_simpleEscape rfl⟩
  · split
    · rename_i hcontrol
      obtain ⟨hlength, hvalue⟩ := hexPadded_control c.toNat hcontrol
      generalize Text.hexPadded 4 c.toNat = ds at hlength hvalue
      obtain ⟨x, y, z, w, rfl⟩ := List.length_eq_four.1 hlength
      obtain ⟨values, hvalues, hc⟩ := Option.map_eq_some_iff.1 hvalue
      refine ⟨.unit c.toNat, ?_, ?_⟩
      · -- a control character is below the surrogates, so its unit stands for it alone
        intro ps
        have hlow : ¬ (0xD800 ≤ c.toNat ∧ c.toNat < 0xDC00) := by omega
        have hhigh : ¬ (0xDC00 ≤ c.toNat ∧ c.toNat < 0xE000) := by omega
        rw [joinPieces?.eq_def]
        simp only [hlow, hhigh, if_false, Char.ofNat_toNat]
      · intro rest
        rw [← hc]
        exact pieces?_unit hvalues rest
    · rename_i hquote hslash _ _ _ _ _ hcontrol
      refine ⟨.char c, fun _ => rfl, ?_⟩
      intro rest
      rw [List.singleton_append, pieces?]
      · have hplain : ¬ (c.toNat < 0x20 ∨ c = '\\') := not_or.2 ⟨hcontrol, hslash⟩
        cases pieces? rest <;> simp [hplain]
      · exact hquote
      · intro x y z w after h
        exact absurd h hslash
      · intro d after h
        exact absurd h hslash

/-- The characters of a quoted text are read up to the closing quote. -/
private theorem exists_pieces (cs rest : List Char) :
    ∃ ps, pieces? (cs.flatMap escapeChar ++ '"' :: rest) = some (ps, rest) ∧ joinPieces? ps = some cs := by
  induction cs with
  | nil => exact ⟨[], rfl, rfl⟩
  | cons c cs ih =>
    obtain ⟨ps, hpieces, hjoin⟩ := ih
    obtain ⟨p, hp, hread⟩ := exists_piece c
    refine ⟨p :: ps, ?_, ?_⟩
    · rw [List.flatMap_cons, List.append_assoc, hread, hpieces]
      rfl
    · rw [hp, hjoin]
      rfl

theorem reads_quote (s : String) : Reads (quote s).toList [.string (some s)] := by
  have htext : (quote s).toList = '"' :: (s.toList.flatMap escapeChar ++ ['"']) := by simp [quote]
  rw [htext]
  refine reads_of_next (by decide) ?_
  intro rest
  obtain ⟨ps, hpieces, hjoin⟩ := exists_pieces s.toList rest
  have hstring : string? (s.toList.flatMap escapeChar ++ '"' :: rest) = some (some s, rest) := by
    simp only [string?, hpieces, Option.map_some, hjoin, String.ofList_toList]
  rw [List.cons_append, List.append_assoc, List.singleton_append, next?, hstring]
  rfl

end FieldRules.Json.Token
