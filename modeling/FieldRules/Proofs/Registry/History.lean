import FieldRules.Catalog
import FieldRules.Proofs.Registry.Lookup
import FieldRules.Proofs.Text.Bytes
import Mathlib.Data.List.Induction

/-!
# What becomes of a registry

A registry is changed by registering rules and setting messages, any number of times (`Registry.Change`). The key facts:
`Registry.find?_perform` (what one change does to a look-up), `Registry.find?_after` (after any changes the last
definition of a name is found, with the last template), `Registry.perform_comm` (changes of different rules commute) and
`Registry.listed` (the listing of the rules agrees with looking them up).
-/

namespace FieldRules.Registry

/-- What is done to a registry. -/
inductive Change where
  | register (d : RuleDefinition)
  | setMessage (name template : String)

inductive Answer where
  /-- The definition that a registered one takes the place of. -/
  | replaced (previous : Option RuleDefinition)
  | done
  | failed (fault : Fault)

/-- The rule that a change is about. -/
def Change.name : Change → String
  | register d => d.name
  | setMessage name _ => name

def perform (r : Registry) : Change → Answer × Registry
  | .register d => (.replaced (r.register d).1, (r.register d).2)
  | .setMessage name template =>
    match r.setMessage name template with
    | .ok changed => (.done, changed)
    | .error fault => (.failed fault, r)

def after (r : Registry) (changes : List Change) : Registry := changes.foldl (fun r c => (r.perform c).2) r

/-- Changes with the answers to them. -/
def transcript (r : Registry) : List Change → List (Change × Answer)
  | [] => []
  | c :: rest => (c, (r.perform c).1) :: (r.perform c).2.transcript rest

/-! ### One change -/

section Perform

variable {r r' : Registry} {n name template : String} {c : Change}

private theorem perform_setMessage_of_find? {d : RuleDefinition} (h : r.find? name = some d) (template : String) :
    ∃ changed, r.setMessage name template = .ok changed ∧
      r.perform (.setMessage name template) = (.done, changed) := by
  refine ⟨_, setMessage_of_find? h template, ?_⟩
  rw [perform, setMessage_of_find? h]

private theorem perform_setMessage_of_find?_eq_none (h : r.find? name = none) (template : String) :
    r.perform (.setMessage name template) = (.failed (.unknownRule name), r) := by
  rw [perform, setMessage_of_find?_eq_none h]

/-- What is found after a change. -/
theorem find?_perform (r : Registry) (c : Change) (n : String) :
    (r.perform c).2.find? n =
      match c with
      | .register d => if n = d.name then some d else r.find? n
      | .setMessage name template => (r.find? n).map fun d => if n = name then d.withTemplate template else d := by
  cases c with
  | register d => exact find?_register r d n
  | setMessage name template =>
    cases hfind : r.find? name with
    | some d =>
      obtain ⟨changed, hset, hperform⟩ := perform_setMessage_of_find? hfind template
      rw [hperform]
      exact find?_setMessage hset n
    | none =>
      rw [perform_setMessage_of_find?_eq_none hfind]
      by_cases hn : n = name
      · rw [hn, hfind]
        rfl
      · simp [hn]

private theorem find?_perform_of_ne (r : Registry) (h : n ≠ c.name) : (r.perform c).2.find? n = r.find? n := by
  rw [find?_perform]
  cases c with
  | register d => exact if_neg h
  | setMessage name template =>
    have hn : ¬ n = name := h
    simp [hn]

private theorem find?_perform_congr (c : Change) (h : r.find? n = r'.find? n) :
    (r.perform c).2.find? n = (r'.perform c).2.find? n := by
  rw [find?_perform, find?_perform, h]

/-- The answer to a change depends on the rule that it is about, and on no other. -/
private theorem perform_fst_congr (c : Change) (h : r.find? c.name = r'.find? c.name) :
    (r.perform c).1 = (r'.perform c).1 := by
  cases c with
  | register d => exact congrArg Answer.replaced h
  | setMessage name template =>
    change r.find? name = r'.find? name at h
    cases hfind : r.find? name with
    | none =>
      rw [perform_setMessage_of_find?_eq_none hfind, perform_setMessage_of_find?_eq_none (h.symm.trans hfind)]
    | some d =>
      obtain ⟨_, -, hperform⟩ := perform_setMessage_of_find? hfind template
      obtain ⟨_, -, hperform'⟩ := perform_setMessage_of_find? (h.symm.trans hfind) template
      rw [hperform, hperform']

/-- Changes of different rules commute, and neither shows in the answer to the other. -/
theorem perform_comm (r : Registry) {a b : Change} (h : a.name ≠ b.name) :
    ((r.perform a).2.perform b).2 = ((r.perform b).2.perform a).2 ∧
      ((r.perform a).2.perform b).1 = (r.perform b).1 ∧ ((r.perform b).2.perform a).1 = (r.perform a).1 := by
  refine ⟨ext_of_find? ?_, perform_fst_congr b (find?_perform_of_ne r h.symm),
    perform_fst_congr a (find?_perform_of_ne r h)⟩
  intro n
  by_cases ha : n = a.name
  · have hb : n ≠ b.name := by rwa [ha]
    rw [find?_perform_of_ne _ hb]
    exact (find?_perform_congr a (find?_perform_of_ne r hb)).symm
  · rw [find?_perform_of_ne (r.perform b).2 ha]
    exact find?_perform_congr b (find?_perform_of_ne r ha)

end Perform

/-! ### Any number of changes -/

/-- The definition that a change gives for a name. -/
def Change.definition? (name : String) : Change → Option RuleDefinition
  | register d => if d.name = name then some d else none
  | setMessage .. => none

/-- The template that a change gives for a name: that of a definition, or of a message when it could be set. -/
def template? (name : String) : Change × Answer → Option String
  | (.register d, _) => if d.name = name then some d.template else none
  | (.setMessage n template, .done) => if n = name then some template else none
  | _ => none

/-- The definitions for a name, in order: the one at the start, and those that changes give. -/
def definitionsOf (start : Registry) (name : String) (changes : List Change) : List RuleDefinition :=
  (start.find? name).toList ++ changes.filterMap (Change.definition? name)

/-- The templates for a name, in order: the one at the start, and those that changes give. -/
def templatesOf (start : Registry) (name : String) (changes : List Change) : List String :=
  ((start.find? name).map (·.template)).toList ++ (start.transcript changes).filterMap (template? name)

section After

variable (start : Registry) (n : String) (changes : List Change) (c : Change)

private theorem after_concat : start.after (changes ++ [c]) = ((start.after changes).perform c).2 := by
  rw [after, List.foldl_concat, ← after]

private theorem transcript_concat :
    start.transcript (changes ++ [c]) = start.transcript changes ++ [(c, ((start.after changes).perform c).1)] := by
  induction changes generalizing start with
  | nil => rfl
  | cons first rest ih =>
    rw [List.cons_append, transcript, ih, transcript, List.cons_append]
    rfl

private theorem definitionsOf_concat :
    start.definitionsOf n (changes ++ [c]) = start.definitionsOf n changes ++ (c.definition? n).toList := by
  simp only [definitionsOf, List.filterMap_append, List.append_assoc]
  cases h : c.definition? n <;> simp [h]

private theorem templatesOf_concat :
    start.templatesOf n (changes ++ [c]) =
      start.templatesOf n changes ++ (template? n (c, ((start.after changes).perform c).1)).toList := by
  simp only [templatesOf, transcript_concat, List.filterMap_append, List.append_assoc]
  cases h : template? n (c, ((start.after changes).perform c).1) <;> simp [h]

/-- What is found after changes: the last definition, with the last template. -/
theorem find?_after :
    (start.after changes).find? n = (start.definitionsOf n changes).getLast?.bind fun d =>
      (start.templatesOf n changes).getLast?.map d.withTemplate := by
  induction changes using List.reverseRecOn with
  | nil =>
    cases hfind : start.find? n with
    | none => simp [after, definitionsOf, hfind]
    | some d => simp [after, definitionsOf, templatesOf, transcript, hfind, RuleDefinition.withTemplate]
  | append_singleton changes c ih =>
    rw [after_concat, definitionsOf_concat, templatesOf_concat, find?_perform]
    cases c with
    | register d =>
      by_cases hn : d.name = n
      · subst hn
        simp [Change.definition?, template?, RuleDefinition.withTemplate]
      · simp [Change.definition?, template?, hn, Ne.symm hn, ih]
    | setMessage name template =>
      by_cases hn : n = name
      · subst hn
        cases hfind : (start.after changes).find? n with
        | none =>
          rw [perform_setMessage_of_find?_eq_none hfind]
          simp only [Change.definition?, template?, Option.toList_none, List.append_nil]
          rw [← ih, hfind]
          rfl
        | some d =>
          -- the definition stays the last one, and the message is the last template
          obtain ⟨changed, -, hperform⟩ := perform_setMessage_of_find? hfind template
          rw [hperform]
          rw [hfind] at ih
          obtain ⟨base, hbase, hd⟩ := Option.bind_eq_some_iff.1 ih.symm
          obtain ⟨last, -, rfl⟩ := Option.map_eq_some_iff.1 hd
          simp [Change.definition?, template?, hbase, RuleDefinition.withTemplate]
      · have htemplate : template? n (.setMessage name template,
            ((start.after changes).perform (.setMessage name template)).1) = none := by
          generalize ((start.after changes).perform (.setMessage name template)).1 = answer
          cases answer <;> simp [template?, Ne.symm hn]
        simp [Change.definition?, htemplate, hn, ih]

/-- A rule is there when it was there at the start or was registered. -/
private theorem contains_after :
    (start.after changes).contains n ↔ start.contains n ∨ ∃ d, Change.register d ∈ changes ∧ d.name = n := by
  induction changes using List.reverseRecOn with
  | nil => simp [after]
  | append_singleton changes c ih =>
    rw [after_concat, contains_eq_isSome, find?_perform]
    rw [contains_eq_isSome] at ih
    cases c with
    | register d =>
      by_cases hn : d.name = n
      · simp [hn]
      · simp [hn, Ne.symm hn, ih, or_and_right, exists_or]
    | setMessage name template => simp [ih]

variable {start n changes}

private theorem name_of_mem_definitionsOf {d : RuleDefinition} (h : d ∈ start.definitionsOf n changes) :
    d.name = n := by
  rcases List.mem_append.1 h with h | h
  · exact name_eq_of_find? (by simpa using h)
  · obtain ⟨c, -, hc⟩ := List.mem_filterMap.1 h
    cases c with
    | setMessage name template => cases hc
    | register d' =>
      simp only [Change.definition?] at hc
      split at hc
      · obtain rfl := Option.some.inj hc
        assumption
      · cases hc

end After

/-! ### Listing rules -/

/-- The listing of a registry agrees with its look-ups: the names are in the order of their bytes, the rule of every
name is listed in this order, and a name selects the rule that is listed for it. -/
structure Listed (r : Registry) : Prop where
  names : r.names.Pairwise fun a b => Text.bytes a < Text.bytes b
  definitions : r.definitions.map .ok = r.names.map r.lookup
  size : r.size = r.definitions.length
  all : r.select none = .ok r.definitions
  one : ∀ n ds, r.select (some n) = .ok ds ↔ ∃ d ∈ r.definitions, d.name = n ∧ ds = [d]

section Listing

variable (r : Registry)

/-- The rules have the order of their names already, since each stands under its own. -/
private theorem definitions_eq : r.definitions = r.rules.entries.map Prod.snd := by
  apply List.mergeSort_of_pairwise
  rw [List.pairwise_map]
  refine r.rules.sorted.imp_of_mem ?_
  intro e e' he he' hlt
  rw [r.named e he, r.named e' he']
  exact decide_eq_true (String.not_lt.1 (String.lt_asymm hlt))

private theorem mem_definitions_iff {d : RuleDefinition} : d ∈ r.definitions ↔ r.find? d.name = some d := by
  rw [definitions_eq, List.mem_map]
  constructor
  · rintro ⟨e, he, rfl⟩
    rw [r.named e he]
    exact NameMap.find?_eq_some_iff.2 he
  · intro h
    exact ⟨(d.name, d), NameMap.find?_eq_some_iff.1 h, rfl⟩

theorem listed : r.Listed where
  names := by
    rw [names, NameMap.names, List.pairwise_map]
    exact r.rules.sorted.imp Text.bytes_lt_iff.2
  definitions := by
    rw [definitions_eq, names, NameMap.names, List.map_map, List.map_map]
    apply List.map_congr_left
    intro e he
    exact (lookup_of_find? (NameMap.find?_eq_some_iff.2 he)).symm
  size := by
    rw [definitions_eq, List.length_map]
    rfl
  all := rfl
  one := by
    intro n ds
    cases hfind : r.find? n with
    | none =>
      have hselect : r.select (some n) = .error (.unknownRule n) := by
        rw [select, lookup_of_find?_eq_none hfind]
        rfl
      rw [hselect]
      constructor
      · intro h
        cases h
      · rintro ⟨d, hd, rfl, -⟩
        rw [(mem_definitions_iff r).1 hd] at hfind
        cases hfind
    | some d =>
      have hselect : r.select (some n) = .ok [d] := by
        rw [select, lookup_of_find? hfind]
        rfl
      have hname := name_eq_of_find? hfind
      rw [hselect]
      constructor
      · intro h
        exact ⟨d, (mem_definitions_iff r).2 (hname ▸ hfind), hname, (Except.ok.inj h).symm⟩
      · rintro ⟨d', hd', rfl, rfl⟩
        rw [(mem_definitions_iff r).1 hd'] at hfind
        rw [Option.some.inj hfind]

end Listing

/-- What becomes of a registry, from the built-in rules or none at the start. A name is looked up with success when it
is there at the start or was registered; then the rule of this name has the number of parameters and the evaluator of
the last definition and the template of the last definition or message for it. A registration answers with what was
looked up before it, a message for a name that is not there changes nothing, changes of different rules commute, and
the listing agrees with the look-ups. -/
theorem changes_last_writer (start : Registry) (changes : List Change) :
    (∀ n, (∃ d, (start.after changes).lookup n = .ok d) ↔
      start.contains n ∨ ∃ d, Change.register d ∈ changes ∧ d.name = n) ∧
    (∀ n d, (start.after changes).lookup n = .ok d ↔
      ∃ last template, (start.definitionsOf n changes).getLast? = some last ∧
        (start.templatesOf n changes).getLast? = some template ∧
        d = ⟨n, last.parameterCount, last.evaluate, template⟩) ∧
    (∀ d, ((start.after changes).perform (.register d)).1 =
      .replaced ((start.after changes).lookup d.name).toOption) ∧
    (∀ n template, (start.after changes).contains n = false →
      (start.after changes).perform (.setMessage n template) = (.failed (.unknownRule n), start.after changes)) ∧
    (∀ a b : Change, a.name ≠ b.name →
      start.after (changes ++ [a, b]) = start.after (changes ++ [b, a]) ∧
        ((start.after (changes ++ [a])).perform b).1 = ((start.after changes).perform b).1) ∧
    (start.after changes).Listed ∧
    (∀ n, empty.contains n = false) ∧
    ∀ n d, standard.lookup n = .ok d ↔ d ∈ BuiltIn.definitions ∧ d.name = n := by
  refine ⟨?_, ?_, ?_, ?_, ?_, listed _, fun _ => rfl, ?_⟩
  · intro n
    rw [← contains_after, contains_eq_isSome, Option.isSome_iff_exists]
    simp only [lookup_eq_ok_iff]
  · intro n d
    rw [lookup_eq_ok_iff, find?_after, Option.bind_eq_some_iff]
    simp only [Option.map_eq_some_iff]
    constructor
    · rintro ⟨last, hlast, template, htemplate, rfl⟩
      have hname := name_of_mem_definitionsOf (List.mem_of_getLast? hlast)
      exact ⟨last, template, hlast, htemplate, by rw [← hname]; rfl⟩
    · rintro ⟨last, template, hlast, htemplate, rfl⟩
      have hname := name_of_mem_definitionsOf (List.mem_of_getLast? hlast)
      exact ⟨last, hlast, template, htemplate, by rw [← hname]; rfl⟩
  · intro d
    rw [perform, register, lookup]
    cases (start.after changes).find? d.name <;> rfl
  · intro n template h
    rw [contains_eq_isSome, Option.isSome_eq_false_iff, Option.isNone_iff_eq_none] at h
    exact perform_setMessage_of_find?_eq_none h template
  · intro a b h
    obtain ⟨hregistry, hanswer, -⟩ := perform_comm (start.after changes) h
    rw [List.append_cons, after_concat, after_concat, List.append_cons, after_concat, after_concat]
    exact ⟨hregistry, hanswer⟩
  · intro n d
    rw [lookup_eq_ok_iff, find?_standard_eq_some_iff]

/-- A message stands until the rule is registered anew, and the next message stands after that. -/
theorem changes_last_writer_twice :
    let rule : RuleDefinition := ⟨"required", 0, fun _ _ => .ok true, "given"⟩
    let changes : List Change := [.setMessage "required" "early", .register rule, .setMessage "required" "late"]
    (standard.after changes).lookup "required" = .ok (rule.withTemplate "late") ∧
      (standard.after changes).perform (.setMessage "absent" "") =
        (.failed (.unknownRule "absent"), standard.after changes) ∧
      standard.after (changes ++ [.register rule, .setMessage "absent" ""]) =
        standard.after (changes ++ [.setMessage "absent" "", .register rule]) := by
  intro rule changes
  obtain ⟨-, hlookup, -, hfail, hcomm, -⟩ := changes_last_writer standard changes
  refine ⟨(hlookup "required" _).2 ⟨rule, "late", ?_, ?_, rfl⟩, hfail "absent" "" ?_, (hcomm _ _ ?_).1⟩
  · rfl
  · decide +kernel
  · decide +kernel
  · decide

end FieldRules.Registry
