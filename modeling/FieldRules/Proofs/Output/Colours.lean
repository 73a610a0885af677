import FieldRules.Output.Console
import FieldRules.Proofs.Text.Lines
import Mathlib.Data.List.DropRight

/-!
# Reports without their colours

What is left of a coloured report when its colour sequences are deleted. The key facts: `Style.erase_paint` (painting
adds colour sequences alone), `Report.erase_coloredText` and `Console.report_erased` (of a report without escape
characters the carriage returns before line feeds are lost, and nothing else).
-/

namespace FieldRules

/-! ### Colour sequences -/

namespace Style

/-- Whether a character stands among the numbers of a colour sequence. -/
def isParameter (c : Char) : Bool := c.isDigit || c == ';'

/-- What follows a colour sequence that a text begins with: an escape character, a bracket, numbers and an `m`. -/
def afterSequence? : List Char → Option (List Char)
  | '\x1b' :: '[' :: rest =>
    match rest.dropWhile isParameter with
    | 'm' :: after => some after
    | _ => none
  | _ => none

private theorem length_of_afterSequence? {cs after : List Char} (h : afterSequence? cs = some after) :
    after.length < cs.length := by
  unfold afterSequence? at h
  split at h
  · rename_i rest
    have hdrop := (List.dropWhile_suffix isParameter (l := rest)).length_le
    split at h
    · rename_i after' hafter
      obtain rfl := Option.some.inj h
      rw [hafter, List.length_cons] at hdrop
      simp only [List.length_cons]
      omega
    · cases h
  · cases h

/-- A text without its colour sequences. -/
def erase : List Char → List Char
  | [] => []
  | c :: rest =>
    match _h : afterSequence? (c :: rest) with
    | some after => erase after
    | none => c :: erase rest
termination_by cs => cs.length
decreasing_by
  · exact length_of_afterSequence? ‹_›
  · simp

private theorem erase_of_afterSequence? {cs after : List Char} (h : afterSequence? cs = some after) :
    erase cs = erase after := by
  cases cs with
  | nil => cases h
  | cons c rest =>
    rw [erase]
    split
    · rename_i after' hafter
      rw [h] at hafter
      rw [Option.some.inj hafter]
    · rename_i hnone
      rw [h] at hnone
      cases hnone

private theorem erase_cons_of_ne {c : Char} (h : c ≠ '\x1b') (rest : List Char) :
    erase (c :: rest) = c :: erase rest := by
  have hnone : afterSequence? (c :: rest) = none := by
    unfold afterSequence?
    split
    · rename_i heq
      exact absurd (List.cons.inj heq).1 h
    · rfl
  rw [erase]
  split
  · rename_i hsome
    rw [hnone] at hsome
    cases hsome
  · rfl

private theorem erase_append_of_not_mem {cs : List Char} (h : '\x1b' ∉ cs) (rest : List Char) :
    erase (cs ++ rest) = cs ++ erase rest := by
  induction cs with
  | nil => rfl
  | cons c cs ih =>
    obtain ⟨hc, hcs⟩ := not_or.1 (mt List.mem_cons.2 h)
    rw [List.cons_append, erase_cons_of_ne (Ne.symm hc), ih hcs, List.cons_append]

private theorem erase_of_not_mem {cs : List Char} (h : '\x1b' ∉ cs) : erase cs = cs := by
  have happend := erase_append_of_not_mem h []
  rwa [List.append_nil, erase, List.append_nil] at happend

private theorem erase_code_append (style : Style) (rest : List Char) : erase (style.code ++ rest) = erase rest := by
  apply erase_of_afterSequence?
  cases style <;> rfl

private theorem erase_endCode_append (rest : List Char) : erase (endCode ++ rest) = erase rest :=
  erase_of_afterSequence? rfl

private theorem renew_of_not_mem {cs : List Char} (h : '\x1b' ∉ cs) (code : List Char) : renew code cs = cs := by
  induction cs with
  | nil => rfl
  | cons c cs ih =>
    obtain ⟨hc, hcs⟩ := not_or.1 (mt List.mem_cons.2 h)
    rw [renew, ih hcs]
    rintro rest rfl
    exact absurd rfl hc

/-- Painting adds nothing but colour sequences to a text without escape characters. -/
theorem erase_paint {text : String} (h : '\x1b' ∉ text.toList) (color : Bool) (style : Style) (rest : List Char) :
    erase ((paint color style text).toList ++ rest) = text.toList ++ erase rest := by
  cases color with
  | false => exact erase_append_of_not_mem h rest
  | true =>
    have htext : (paint true style text).toList ++ rest = style.code ++ (text.toList ++ (endCode ++ rest)) := by
      simp [paint, renew_of_not_mem h]
    rw [htext, erase_code_append, erase_append_of_not_mem h, erase_endCode_append]

end Style

/-! ### Reports -/

private theorem intercalate_cons_eq (sep : Char) (first : List Char) (rest : List (List Char)) :
    [sep].intercalate (first :: rest) = first ++ rest.flatMap (sep :: ·) := by
  induction rest generalizing first with
  | nil => simp
  | cons next others ih => rw [List.intercalate_cons_cons, ih]; simp

namespace Report

/-- No text that a report shows contains an escape character. -/
structure EscapeFree (r : Report) : Prop where
  record : '\x1b' ∉ r.record.toList
  errors : ∀ e ∈ r.errors, '\x1b' ∉ e.field.toList ∧ '\x1b' ∉ e.message.toList ∧ '\x1b' ∉ e.expression.toList

private theorem not_mem_toDigits (n : Nat) : '\x1b' ∉ Nat.toDigits 10 n := fun hmem =>
  absurd (Nat.isDigit_of_mem_toDigits (by decide) (by decide) hmem) (by decide)

private theorem not_mem_errorText {e : FieldError} (hfield : '\x1b' ∉ e.field.toList)
    (hmessage : '\x1b' ∉ e.message.toList) (hexpression : '\x1b' ∉ e.expression.toList) (index : Nat) :
    '\x1b' ∉ (errorText index e).toList := by
  simp [errorText, FieldError.display, hfield, hmessage, hexpression, not_mem_toDigits]

private theorem not_mem_verdict (submitted : Option Bool) : '\x1b' ∉ (verdict submitted).toList := by
  rcases submitted with _ | _ | _ <;> decide

/-- The report for people before the blanks at its end are cut off. -/
def fullText (r : Report) : String :=
  r.headline ++ String.join (if r.valid then [] else r.errors.zipIdx.map fun (e, i) => errorText i e) ++
    verdict r.submitted

private theorem toList_text (r : Report) : r.text.toList = Text.trimEnd Text.isBlank r.fullText.toList := by
  rw [text, String.toList_ofList]
  rfl

private theorem not_mem_fullText {r : Report} (h : r.EscapeFree) : '\x1b' ∉ r.fullText.toList := by
  have hheadline : '\x1b' ∉ r.headline.toList := by
    unfold headline
    split <;> simp [h.record, not_mem_toDigits]
  have herrors : '\x1b' ∉ (String.join (r.errors.zipIdx.map fun (e, i) => errorText i e)).toList := by
    rw [String.toList_join, List.mem_flatMap]
    rintro ⟨s, hs, hmem⟩
    obtain ⟨⟨e, i⟩, hindexed, rfl⟩ := List.mem_map.1 hs
    obtain ⟨hfield, hmessage, hexpression⟩ := h.errors e (List.fst_mem_of_mem_zipIdx hindexed)
    exact not_mem_errorText hfield hmessage hexpression i hmem
  rw [fullText, String.toList_append, String.toList_append]
  simp only [List.mem_append, not_or]
  refine ⟨⟨hheadline, ?_⟩, not_mem_verdict r.submitted⟩
  split
  · simp
  · exact herrors

private theorem not_mem_text {r : Report} (h : r.EscapeFree) : '\x1b' ∉ r.text.toList := by
  rw [toList_text]
  exact fun hmem => not_mem_fullText h ((List.rdropWhile_prefix _ _).subset hmem)

/-- The report for people begins with a sign, so that there is a line. -/
private theorem text_ne_nil (r : Report) : r.text.toList ≠ [] := by
  rw [toList_text]
  intro hnil
  have hblank : ∀ c ∈ r.fullText.toList, Text.isBlank c := List.rdropWhile_eq_nil_iff.1 hnil
  cases hvalid : r.valid with
  | true => exact absurd (hblank '✅' (by simp [fullText, headline, hvalid])) (by decide)
  | false => exact absurd (hblank '❌' (by simp [fullText, headline, hvalid])) (by decide)

/-- The report for people does not end in a blank. -/
private theorem getLast?_text_ne (r : Report) {c : Char} (hc : Text.isBlank c) : r.text.toList.getLast? ≠ some c := by
  have hblank := List.rdropWhile_last_not Text.isBlank r.fullText.toList
  rw [show r.fullText.toList.rdropWhile Text.isBlank = r.text.toList from (toList_text r).symm] at hblank
  intro hlast
  rw [List.getLast?_eq_some_getLast (text_ne_nil r), Option.some_inj] at hlast
  exact hblank (text_ne_nil r) (hlast ▸ hc)

/-- Without its colour sequences a coloured report is the plain one without the carriage returns before line feeds. -/
theorem erase_coloredText {r : Report} (h : r.EscapeFree) (tail : List Char) :
    Style.erase (r.coloredText.toList ++ tail) = Text.withoutReturns r.text.toList ++ Style.erase tail := by
  have hjoined : ['\n'].intercalate ((Text.lines r.text).map String.toList) = Text.withoutReturns r.text.toList := by
    rw [← Text.intercalate_linesOfPieces (text_ne_nil r) (getLast?_text_ne r (by decide)), Text.lines, List.map_map]
    simp
  have hescape : '\x1b' ∉ Text.withoutReturns r.text.toList := fun hmem =>
    not_mem_text h (Text.mem_of_mem_withoutReturns hmem)
  rw [← hjoined] at hescape ⊢
  unfold coloredText
  generalize Text.lines r.text = lines at hescape ⊢
  cases lines with
  | nil => simp
  | cons first rest =>
    -- the first line is painted, and the others stand behind it as they are
    rw [List.map_cons, intercalate_cons_eq] at hescape ⊢
    obtain ⟨hfirst, hrest⟩ := not_or.1 (mt List.mem_append.2 hescape)
    have hsep : "\n".toList = ['\n'] := rfl
    rw [String.toList_intercalate, hsep, List.map_cons, intercalate_cons_eq, List.append_assoc,
      Style.erase_paint hfirst, Style.erase_append_of_not_mem hrest, List.append_assoc]

end Report

namespace Console

variable {c : Console}

/-- Without its colour sequences what is written with colours is what is written without them, less the carriage returns
before line feeds. -/
private theorem erase_report (hc : c.format = .human) {r : Report} (h : r.EscapeFree) :
    Style.erase (report { c with color := true } r).toList =
      Text.withoutReturns (report { c with color := false } r).toList := by
  simp only [report, forPeople, hc, decide_true, Bool.not_true, Bool.false_eq_true, if_false, if_true]
  split
  · rw [Style.erase_of_not_mem (by decide), Text.withoutReturns_of_not_mem (by decide)]
  · rw [line, line, String.toList_append, String.toList_append, Report.erase_coloredText h,
      Style.erase_of_not_mem (by decide)]
    exact (Text.withoutReturns_concat (Report.getLast?_text_ne r (by decide))).symm

/-- A report without escape characters, with colours, is the same report without colours once its colour sequences are
deleted, except that the carriage returns before line feeds are missing. So it is the same exactly when no carriage
return of the report stands before a line feed. -/
theorem report_erased (hc : c.format = .human) {r : Report} (h : r.EscapeFree) :
    let coloured := (report { c with color := true } r).toList
    let plain := (report { c with color := false } r).toList
    Style.erase coloured = Text.withoutReturns plain ∧
      (Style.erase coloured = plain ↔ ¬ ['\r', '\n'] <:+: plain) := by
  intro coloured plain
  have herased : Style.erase coloured = Text.withoutReturns plain := erase_report hc h
  exact ⟨herased, by rw [herased, Text.withoutReturns_eq_self_iff]⟩

theorem report_erased_missing :
    let c : Console := ⟨.human, true, false, 0⟩
    let e : FieldError := ⟨"name", ⟨"name", "required"⟩, "required", [], "The name is required."⟩
    let r : Report := ⟨"ada.json", false, 1, some false, [e]⟩
    c.format = .human ∧ r.EscapeFree ∧
      Style.erase (report { c with color := true } r).toList = (report { c with color := false } r).toList := by
  intro c e r
  have hr : r.EscapeFree := ⟨by decide, by decide⟩
  have hreturn : ¬ ['\r', '\n'] <:+: (report { c with color := false } r).toList := by decide +kernel
  exact ⟨rfl, hr, (report_erased rfl hr).2.2 hreturn⟩

/-- A line break of two characters within a field name loses one of them to the colours. -/
theorem not_report_erased_return :
    let c : Console := ⟨.human, true, false, 0⟩
    let e : FieldError := ⟨"a\r\nb", ⟨"a\r\nb", "required"⟩, "required", [], "The a\r\nb is required."⟩
    let r : Report := ⟨"r.json", false, 1, none, [e]⟩
    c.format = .human ∧ r.EscapeFree ∧
      Style.erase (report { c with color := true } r).toList ≠ (report { c with color := false } r).toList := by
  intro c e r
  have hr : r.EscapeFree := ⟨by decide, by decide⟩
  refine ⟨rfl, hr, ?_⟩
  rw [erase_report rfl hr, ne_eq, Text.withoutReturns_eq_self_iff]
  decide +kernel

end Console

end FieldRules
