import FieldRules.Log.Redaction
import FieldRules.Proofs.Text.Case
import FieldRules.Proofs.Text.Occurrence
import Mathlib.Data.List.TakeWhile

/-!
# Assignments of secrets

A secret word, separators, a quote if there is one, and the secret. The key facts: `secretAt?_isSome_iff` (an assignment
is found wherever one comes first in a text) and `secretAt?_eq_some` (what is found is an assignment whose secret goes on
as far as it can, and with as many separators as an assignment can have there).
-/

namespace FieldRules.Redaction

/-! ### Words -/

/-- The letter or sign that a character spells. -/
def letter (c : Char) : Char :=
  if c = '\u212a' then 'k' else if c = '\u017f' then 's' else c.toLower

private theorem spells_iff {c l : Char} (hl : l.toNat < 128) : spells c l ↔ letter c = l := by
  have hspells : spells c l ↔ c.toLower = l ∨ l = 'k' ∧ c = '\u212a' ∨ l = 's' ∧ c = '\u017f' := by
    rw [spells, Bool.or_eq_true, Bool.or_eq_true, Bool.and_eq_true, Bool.and_eq_true, beq_iff_eq, beq_iff_eq,
      beq_iff_eq, beq_iff_eq, beq_iff_eq, or_assoc]
  have hascii (h : c.toLower = l) : c.toNat < 128 := Text.isAscii_of_toLower (h ▸ hl)
  rw [hspells]
  unfold letter
  split
  · rename_i hc
    subst hc
    constructor
    · rintro (h | ⟨rfl, -⟩ | ⟨-, h⟩)
      · exact absurd (hascii h) (by decide)
      · rfl
      · exact absurd h (by decide)
    · rintro rfl
      exact .inr (.inl ⟨rfl, rfl⟩)
  · split
    · rename_i hc
      subst hc
      constructor
      · rintro (h | ⟨-, h⟩ | ⟨rfl, -⟩)
        · exact absurd (hascii h) (by decide)
        · exact absurd h (by decide)
        · rfl
      · rintro rfl
        exact .inr (.inr ⟨rfl, rfl⟩)
    · simp [*]

private theorem isAscii_of_mem_secretWord {word : List Char} (hword : word ∈ secretWords) :
    ∀ l ∈ word, l.toNat < 128 := by
  have hall : secretWords.all fun word => word.all fun l => l.toNat < 128 := by decide
  intro l hl
  exact of_decide_eq_true (List.all_eq_true.1 (List.all_eq_true.1 hall word hword) l hl)

/-- A character that spells one of a secret word separates nothing and quotes nothing. -/
private theorem not_isSeparator_of_letter_mem {c : Char} {word : List Char} (hword : word ∈ secretWords)
    (hc : letter c ∈ word) : ¬ isSeparator c ∧ ¬ isQuote c := by
  have hkelvin : ¬ isSeparator '\u212a' ∧ ¬ isQuote '\u212a' := by decide
  have hlong : ¬ isSeparator '\u017f' ∧ ¬ isQuote '\u017f' := by decide
  have hascii : ∀ n < 128, isSeparator (Char.ofNat n) ∨ isQuote (Char.ofNat n) →
      ∀ word ∈ secretWords, (Char.ofNat n).toLower ∉ word := by decide +kernel
  by_cases h : c = '\u212a'
  · exact h ▸ hkelvin
  by_cases h' : c = '\u017f'
  · exact h' ▸ hlong
  rw [letter, if_neg h, if_neg h'] at hc
  have hlt : c.toNat < 128 := Text.isAscii_of_toLower (isAscii_of_mem_secretWord hword _ hc)
  have hnone := Text.of_ascii
    (p := fun c => isSeparator c ∨ isQuote c → ∀ word ∈ secretWords, c.toLower ∉ word) hascii hlt
  exact ⟨fun hsep => hnone (.inl hsep) word hword hc, fun hquote => hnone (.inr hquote) word hword hc⟩

theorem isValueChar_of_not_isSeparator {c : Char} (h : ¬ isSeparator c ∧ ¬ isQuote c) : isValueChar c := by
  obtain ⟨hsep, hquote⟩ := h
  rw [isSeparator, Bool.or_eq_true, not_or] at hsep
  simp [isValueChar, hsep.2, hquote]

/-- Of two words that come first in a text neither goes on longer. -/
theorem eq_of_prefix_of_spelled {key key' cs : List Char} (h : key.map letter ∈ secretWords)
    (h' : key'.map letter ∈ secretWords) (hkey : key <+: cs) (hkey' : key' <+: cs) : key = key' := by
  have hall : ∀ word ∈ secretWords, ∀ word' ∈ secretWords, word <+: word' → word = word' := by decide
  have heq {a b : List Char} (ha : a.map letter ∈ secretWords) (hb : b.map letter ∈ secretWords) (hab : a <+: b) :
      a = b := by
    have hword := hall _ ha _ hb (hab.map letter)
    exact hab.eq_of_length (by simpa using congrArg List.length hword)
  rcases List.prefix_or_prefix_of_prefix hkey hkey' with hab | hba
  · exact heq h h' hab
  · exact (heq h' h hba).symm

/-- No word stands inside another one, unless at its start. -/
theorem ne_append_of_spelled {key key' before after : List Char} (h : key.map letter ∈ secretWords)
    (h' : key'.map letter ∈ secretWords) (hbefore : before ≠ []) : key ≠ before ++ key' ++ after := by
  have hall : ∀ word ∈ secretWords, ∀ word' ∈ secretWords, ¬ Text.occursIn word' word.tail := by decide
  rintro rfl
  obtain ⟨c, before, rfl⟩ := List.exists_cons_of_ne_nil hbefore
  refine hall _ h _ h' (Text.occursIn_iff.2 ⟨before.map letter, after.map letter, ?_⟩)
  simp

private theorem afterWord?_eq_some_iff {word cs rest : List Char} (hword : ∀ l ∈ word, l.toNat < 128) :
    afterWord? word cs = some rest ↔ ∃ key, cs = key ++ rest ∧ key.map letter = word := by
  induction word generalizing cs with
  | nil => simp [afterWord?, eq_comm]
  | cons l word ih =>
    obtain ⟨hl, hword⟩ := List.forall_mem_cons.1 hword
    constructor
    · intro h
      cases cs with
      | nil => cases h
      | cons c cs =>
        rw [afterWord?] at h
        split at h
        · rename_i hspells
          obtain ⟨key, rfl, rfl⟩ := (ih hword).1 h
          exact ⟨c :: key, rfl, by rw [List.map_cons, (spells_iff hl).1 hspells]⟩
        · cases h
    · rintro ⟨key, rfl, hkey⟩
      obtain ⟨c, key, rfl, hc, hkey⟩ := List.map_eq_cons_iff.1 hkey
      rw [List.cons_append, afterWord?, if_pos ((spells_iff hl).2 hc), ih hword]
      exact ⟨key, rfl, hkey⟩

/-- The first secret word found is the only one that the text begins with. -/
private theorem findSome?_afterWord?_eq_some_iff {cs rest : List Char} :
    (secretWords.findSome? fun word => afterWord? word cs) = some rest ↔
      ∃ key, cs = key ++ rest ∧ key.map letter ∈ secretWords := by
  have hsound {rest : List Char} (h : (secretWords.findSome? fun word => afterWord? word cs) = some rest) :
      ∃ key, cs = key ++ rest ∧ key.map letter ∈ secretWords := by
    obtain ⟨word, hword, hafter⟩ := List.exists_of_findSome?_eq_some h
    obtain ⟨key, hcs, rfl⟩ := (afterWord?_eq_some_iff (isAscii_of_mem_secretWord hword)).1 hafter
    exact ⟨key, hcs, hword⟩
  constructor
  · exact hsound
  · rintro ⟨key, hcs, hkey⟩
    have hsome : (secretWords.findSome? fun word => afterWord? word cs).isSome := by
      rw [List.findSome?_isSome_iff]
      refine ⟨key.map letter, hkey, ?_⟩
      rw [(afterWord?_eq_some_iff (isAscii_of_mem_secretWord hkey)).2 ⟨key, hcs, rfl⟩, Option.isSome_some]
    obtain ⟨rest', hrest'⟩ := Option.isSome_iff_exists.1 hsome
    obtain ⟨key', hcs', hkey'⟩ := hsound hrest'
    obtain rfl := eq_of_prefix_of_spelled hkey hkey' ⟨rest, hcs.symm⟩ ⟨rest', hcs'.symm⟩
    rw [hrest', List.append_cancel_left (hcs'.symm.trans hcs)]

/-! ### Values -/

private theorem exists_dropQuote (cs : List Char) :
    ∃ quote, cs = quote ++ dropQuote cs ∧ quote.length ≤ 1 ∧ ∀ c ∈ quote, isQuote c := by
  cases cs with
  | nil => exact ⟨[], rfl, by simp, by simp⟩
  | cons c cs =>
    by_cases hc : isQuote c
    · exact ⟨[c], by simp [dropQuote, hc], by simp, by simpa⟩
    · exact ⟨[], by simp [dropQuote, hc], by simp, by simp⟩

private theorem dropQuote_append {quote cs : List Char} (hquote : quote.length ≤ 1) (hall : ∀ c ∈ quote, isQuote c)
    (hcs : ∀ c ∈ cs.head?, ¬ isQuote c) : dropQuote (quote ++ cs) = cs := by
  match quote with
  | [] =>
    cases cs with
    | nil => rfl
    | cons c cs => rw [List.nil_append, dropQuote, if_neg (hcs c rfl)]
  | [q] => rw [List.singleton_append, dropQuote, if_pos (hall q List.mem_cons_self)]
  | _ :: _ :: _ => exact absurd hquote (by simp)

private theorem not_isQuote_of_isValueChar {c : Char} (h : isValueChar c) : ¬ isQuote c := by
  rw [isValueChar, Bool.and_eq_true] at h
  simpa using h.2

private theorem afterValue?_isSome {quote secret after : List Char} (hquote : quote.length ≤ 1)
    (hall : ∀ c ∈ quote, isQuote c) (hsecret : ∀ c ∈ secret, isValueChar c) (hlength : 3 ≤ secret.length) :
    (afterValue? (quote ++ (secret ++ after))).isSome := by
  have hhead : ∀ c ∈ (secret ++ after).head?, ¬ isQuote c := by
    obtain ⟨c, rest, rfl⟩ := List.exists_cons_of_length_pos (Nat.lt_of_lt_of_le (by decide) hlength)
    rintro d ⟨⟩
    exact not_isQuote_of_isValueChar (hsecret c List.mem_cons_self)
  have hle : 3 ≤ ((secret ++ after).takeWhile isValueChar).length := by
    rw [List.takeWhile_append_of_pos hsecret, List.length_append]
    omega
  simp only [afterValue?, dropQuote_append hquote hall hhead]
  rw [if_pos hle, Option.isSome_some]

/-- A value may stand in quotes, has at least three characters and goes on as far as it can. -/
private theorem afterValue?_eq_some {cs rest : List Char} (h : afterValue? cs = some rest) :
    ∃ quote secret closing, cs = quote ++ secret ++ closing ++ rest ∧
      (quote.length ≤ 1 ∧ ∀ c ∈ quote, isQuote c) ∧
      (3 ≤ secret.length ∧ ∀ c ∈ secret, isValueChar c) ∧
      (closing.length ≤ 1 ∧ ∀ c ∈ closing, isQuote c) ∧
      ∀ c ∈ (closing ++ rest).head?, ¬ isValueChar c := by
  simp only [afterValue?] at h
  obtain ⟨quote, hcs, hquote⟩ := exists_dropQuote cs
  split at h
  · rename_i hlength
    obtain ⟨closing, hrest, hclosing⟩ := exists_dropQuote ((dropQuote cs).dropWhile isValueChar)
    rw [Option.some.inj h] at hrest
    refine ⟨quote, (dropQuote cs).takeWhile isValueChar, closing, ?_, hquote, ⟨hlength, ?_⟩, hclosing, ?_⟩
    · rw [List.append_assoc, ← hrest, List.append_assoc, List.takeWhile_append_dropWhile, ← hcs]
    · exact fun c hc => List.mem_takeWhile_imp hc
    · rw [← hrest]
      intro c hc
      have hstop := List.head?_dropWhile_not isValueChar (dropQuote cs)
      rw [hc] at hstop
      simpa using hstop
  · cases h

private theorem afterSeparators?_eq_some {cs rest : List Char} {n : Nat} (h : afterSeparators? cs n = some rest) :
    ∃ count, 0 < count ∧ count ≤ n ∧ afterValue? (cs.drop count) = some rest ∧
      ∀ m, count < m → m ≤ n → afterValue? (cs.drop m) = none := by
  induction n with
  | zero => cases h
  | succ n ih =>
    rw [afterSeparators?] at h
    split at h
    · rename_i hvalue
      exact ⟨n + 1, by omega, le_rfl, hvalue.trans h, fun m hlt hle => by omega⟩
    · rename_i hnone
      obtain ⟨count, hpos, hle, hvalue, hmore⟩ := ih h
      refine ⟨count, hpos, by omega, hvalue, fun m hlt hle' => ?_⟩
      rcases Nat.lt_or_eq_of_le hle' with hm | rfl
      · exact hmore m hlt (by omega)
      · exact hnone

private theorem afterSeparators?_isSome {cs : List Char} {m n : Nat} (hpos : 0 < m) (hle : m ≤ n)
    (h : (afterValue? (cs.drop m)).isSome) : (afterSeparators? cs n).isSome := by
  induction n with
  | zero => omega
  | succ n ih =>
    rw [afterSeparators?]
    split
    · rfl
    · rename_i hnone
      refine ih (Nat.le_of_lt_succ (lt_of_le_of_ne hle ?_))
      rintro rfl
      rw [hnone] at h
      cases h

/-! ### Assignments -/

/-- An assignment of a secret as it is written. -/
structure Assignment where
  key : List Char
  separators : List Char
  quote : List Char
  secret : List Char
  /-- The key is a secret word in some case. -/
  spelled : key.map letter ∈ secretWords
  separators_ne_nil : separators ≠ []
  isSeparator_of_mem : ∀ c ∈ separators, isSeparator c
  length_quote : quote.length ≤ 1
  isQuote_of_mem : ∀ c ∈ quote, isQuote c
  length_secret : 3 ≤ secret.length
  isValueChar_of_mem : ∀ c ∈ secret, isValueChar c

namespace Assignment

variable (a b : Assignment)

/-- What stands before the secret. -/
def lead : List Char := a.key ++ (a.separators ++ a.quote)

def text : List Char := a.lead ++ a.secret

theorem length_lead : a.lead.length = a.key.length + (a.separators.length + a.quote.length) := by
  rw [lead, List.length_append, List.length_append]

theorem length_text : a.text.length = a.lead.length + a.secret.length := List.length_append

theorem not_isSeparator_of_mem_key {c : Char} (h : c ∈ a.key) : ¬ isSeparator c ∧ ¬ isQuote c :=
  not_isSeparator_of_letter_mem a.spelled (List.mem_map_of_mem h)

theorem exists_key_eq_cons : ∃ c rest, a.key = c :: rest ∧ ¬ isSeparator c ∧ ¬ isQuote c := by
  have hne : a.key ≠ [] := by
    intro h
    have hspelled := a.spelled
    rw [h] at hspelled
    exact absurd hspelled (by decide)
  obtain ⟨c, rest, hkey⟩ := List.exists_cons_of_ne_nil hne
  exact ⟨c, rest, hkey, a.not_isSeparator_of_mem_key (hkey ▸ List.mem_cons_self)⟩

/-- The characters between key and secret. -/
theorem isSeparator_or_isQuote {c : Char} (h : c ∈ a.separators ++ a.quote) : isSeparator c ∨ isQuote c := by
  rcases List.mem_append.1 h with h | h
  · exact .inl (a.isSeparator_of_mem c h)
  · exact .inr (a.isQuote_of_mem c h)

/-- An assignment and a quote that closes it are what is found where they come first in a text: the secret goes on as far
as it can, and no assignment has more separators there. -/
structure FoundIn (closing cs rest : List Char) : Prop where
  text_eq : cs = a.text ++ closing ++ rest
  length_closing : closing.length ≤ 1
  isQuote_of_mem_closing : ∀ c ∈ closing, isQuote c
  stops : ∀ c ∈ (closing ++ rest).head?, ¬ isValueChar c
  greedy : ∀ b : Assignment, b.text <+: cs → b.separators.length ≤ a.separators.length

end Assignment

/-- Where an assignment comes first in a text: its key is found, and behind its separators a value. -/
private theorem Assignment.found_of_prefix {a : Assignment} {cs : List Char} (h : a.text <+: cs) :
    ∃ rest, (secretWords.findSome? fun word => afterWord? word cs) = some rest ∧ cs = a.key ++ rest ∧
      a.separators.length ≤ (rest.takeWhile isSeparator).length ∧
      (afterValue? (rest.drop a.separators.length)).isSome := by
  obtain ⟨after, rfl⟩ := h
  have htext : a.text ++ after = a.key ++ (a.separators ++ (a.quote ++ (a.secret ++ after))) := by
    simp [text, lead]
  refine ⟨_, findSome?_afterWord?_eq_some_iff.2 ⟨a.key, htext, a.spelled⟩, htext, ?_, ?_⟩
  · rw [List.takeWhile_append_of_pos a.isSeparator_of_mem, List.length_append]
    omega
  · rw [List.drop_left]
    exact afterValue?_isSome a.length_quote a.isQuote_of_mem a.isValueChar_of_mem a.length_secret

theorem secretAt?_isSome {a : Assignment} {cs : List Char} (h : a.text <+: cs) : (secretAt? cs).isSome := by
  obtain ⟨rest, hfind, -, hle, hvalue⟩ := Assignment.found_of_prefix h
  have hpos : 0 < a.separators.length := List.length_pos_iff.2 a.separators_ne_nil
  obtain ⟨rest', hrest'⟩ := Option.isSome_iff_exists.1 (afterSeparators?_isSome hpos hle hvalue)
  simp [secretAt?, hfind, hrest']

/-- What is found at the start of a text. -/
theorem secretAt?_eq_some {cs word rest : List Char} (h : secretAt? cs = some (word, rest)) :
    ∃ (a : Assignment) (closing : List Char), a.key = word ∧ a.FoundIn closing cs rest := by
  unfold secretAt? at h
  obtain ⟨after, hfind, h⟩ := Option.bind_eq_some_iff.1 h
  obtain ⟨rest', hseparators, h⟩ := Option.bind_eq_some_iff.1 h
  obtain ⟨hword, rfl⟩ := Prod.mk.inj (Option.some.inj h)
  obtain ⟨key, rfl, hkey⟩ := findSome?_afterWord?_eq_some_iff.1 hfind
  obtain rfl : key = word := by
    rw [← hword, List.length_append, Nat.add_sub_cancel, List.take_left]
  obtain ⟨count, hpos, hle, hvalue, hmore⟩ := afterSeparators?_eq_some hseparators
  obtain ⟨quote, secret, closing, hafter, hquote, hsecret, hclosing, hstops⟩ := afterValue?_eq_some hvalue
  have htaken : after.take count <+: after.takeWhile isSeparator :=
    List.prefix_of_prefix_length_le (List.take_prefix ..) (List.takeWhile_prefix _) (by rw [List.length_take]; omega)
  have hcount : (after.take count).length = count := by
    have hwhile := (List.takeWhile_prefix (l := after) isSeparator).length_le
    rw [List.length_take]
    omega
  let a : Assignment :=
    { key, separators := after.take count, quote, secret, spelled := hkey
      separators_ne_nil := List.ne_nil_of_length_pos (by omega)
      isSeparator_of_mem := fun c hc => List.mem_takeWhile_imp (htaken.subset hc)
      length_quote := hquote.1, isQuote_of_mem := hquote.2
      length_secret := hsecret.1, isValueChar_of_mem := hsecret.2 }
  refine ⟨a, closing, rfl, ?_, hclosing.1, hclosing.2, hstops, ?_⟩
  · rw [← List.take_append_drop count after, hafter]
    simp [a, Assignment.text, Assignment.lead]
  · intro b hb
    obtain ⟨after', -, hcs, hle', hvalue'⟩ := Assignment.found_of_prefix hb
    obtain rfl := eq_of_prefix_of_spelled b.spelled hkey ⟨after', hcs.symm⟩ ⟨after, rfl⟩
    obtain rfl := List.append_cancel_left hcs
    have hseparators : a.separators.length = count := hcount
    by_contra hlt
    rw [hmore _ (by omega) hle'] at hvalue'
    cases hvalue'

/-- An assignment is found wherever one comes first in a text. -/
theorem secretAt?_isSome_iff {cs : List Char} : (secretAt? cs).isSome ↔ ∃ a : Assignment, a.text <+: cs := by
  constructor
  · intro h
    obtain ⟨⟨word, rest⟩, hfound⟩ := Option.isSome_iff_exists.1 h
    obtain ⟨a, closing, -, hfoundIn⟩ := secretAt?_eq_some hfound
    exact ⟨a, closing ++ rest, by rw [hfoundIn.text_eq, List.append_assoc]⟩
  · rintro ⟨a, h⟩
    exact secretAt?_isSome h

end FieldRules.Redaction
