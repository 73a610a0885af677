import FieldRules.Proofs.Registry.Lookup
import FieldRules.Proofs.Text.Bytes
import FieldRules.Run.Effects
import Mathlib.Data.List.TakeWhile

/-!
# Messages of a configuration

Putting messages into a registry replaces the templates of the rules that they name and nothing else
(`Registry.Overrides`). The key facts: `Config.putMessages_snd` (it ends at the first rule that is not there),
`Config.overrides_putMessages` (the messages before that one are put in), `Run.overrides_configuredRegistry` (what a
command works with) and `Config.override_law` (what becomes of any registry, whether or not all rules are there).
-/

namespace FieldRules

/-- One registry is another one with messages over the templates of the rules that they name. -/
def Registry.Overrides (messages : List (String × String)) (r r' : Registry) : Prop :=
  ∀ n, r'.find? n = (r.find? n).map fun d => { d with template := (messages.lookup n).getD d.template }

/-- A message is put in before those of other rules. -/
private theorem Registry.Overrides.cons {r r₁ r' : Registry} {name template : String} {l : List (String × String)}
    (hset : r.setMessage name template = .ok r₁) (hnot : name ∉ l.map Prod.fst) (h : Overrides l r₁ r') :
    Overrides ((name, template) :: l) r r' := by
  intro n
  rw [h n, find?_setMessage hset, Option.map_map]
  congr 1
  funext d
  rw [Function.comp_apply, NameMap.lookup_cons]
  by_cases hn : n = name
  · have hnone : l.lookup n = none := by
      rw [List.lookup_eq_none_iff]
      intro e he
      have hne : n ≠ e.1 := by
        rintro rfl
        exact hnot (hn ▸ List.mem_map_of_mem he)
      simpa using hne
    rw [if_pos hn, if_pos hn, hnone]
    rfl
  · rw [if_neg hn, if_neg hn]

namespace Config

variable {r : Registry} {l : List (String × String)}

/-- The name of the first rule that is not there. -/
theorem putMessages_snd (r : Registry) (l : List (String × String)) :
    (putMessages r l).2 = (l.find? fun e => !r.contains e.1).map Prod.fst := by
  induction l generalizing r with
  | nil => rfl
  | cons head rest ih =>
    obtain ⟨name, template⟩ := head
    cases hfind : r.find? name with
    | none =>
      simp [putMessages, Registry.setMessage_of_find?_eq_none hfind, Registry.contains_of_find?_eq_none hfind]
    | some d =>
      have hset := Registry.setMessage_of_find? hfind template
      rw [putMessages, hset]
      simp [ih, Registry.contains_setMessage hset, Registry.contains_of_find? hfind]

/-- The messages before the first rule that is not there are put in. -/
theorem overrides_putMessages (h : (l.map Prod.fst).Nodup) :
    Registry.Overrides (l.takeWhile fun e => r.contains e.1) r (putMessages r l).1 := by
  induction l generalizing r with
  | nil => intro n; simp [putMessages]
  | cons head rest ih =>
    obtain ⟨name, template⟩ := head
    obtain ⟨hnot, hrest⟩ := List.nodup_cons.1 h
    cases hfind : r.find? name with
    | none =>
      intro n
      simp [putMessages, Registry.setMessage_of_find?_eq_none hfind, Registry.contains_of_find?_eq_none hfind]
    | some d =>
      have hcontains := Registry.contains_of_find? hfind
      obtain ⟨r₁, hset⟩ : ∃ r₁, r.setMessage name template = .ok r₁ :=
        ⟨_, Registry.setMessage_of_find? hfind template⟩
      have hlater : Registry.Overrides (rest.takeWhile fun e => r₁.contains e.1) r₁ (putMessages r₁ rest).1 := ih hrest
      simp only [Registry.contains_setMessage hset] at hlater
      have htake : ((name, template) :: rest).takeWhile (fun e => r.contains e.1) =
          (name, template) :: rest.takeWhile fun e => r.contains e.1 := List.takeWhile_cons_of_pos hcontains
      rw [putMessages, hset, htake]
      refine .cons hset ?_ hlater
      exact fun hmem => hnot (((List.takeWhile_sublist _).map Prod.fst).subset hmem)

variable {c : Config}

private theorem applyMessages_snd_eq_none_iff :
    (c.applyMessages r).2 = none ↔ ∀ name ∈ c.messages.names, r.contains name := by
  rw [applyMessages, putMessages_snd, Option.map_eq_none_iff, List.find?_eq_none, NameMap.names, List.forall_mem_map]
  simp

/-- When all rules are there, all messages are put in. -/
theorem overrides_applyMessages (h : ∀ name ∈ c.messages.names, r.contains name) :
    ∃ r', c.applyMessages r = (r', none) ∧ r.Overrides c.messages.entries r' := by
  have hall : ∀ e ∈ c.messages.entries, r.contains e.1 := fun e he => h e.1 (List.mem_map_of_mem he)
  have hover : r.Overrides (c.messages.entries.takeWhile fun e => r.contains e.1) (c.applyMessages r).1 :=
    overrides_putMessages c.messages.nodup_names
  rw [List.takeWhile_eq_self_iff.2 hall] at hover
  exact ⟨(c.applyMessages r).1, Prod.ext rfl (applyMessages_snd_eq_none_iff.2 h), hover⟩

end Config

/-- The rules of a configuration are the built-in ones with its messages. -/
theorem Run.overrides_configuredRegistry {c : Config} {r : Registry} (h : configuredRegistry c = .ok r) :
    Registry.standard.Overrides c.messages.entries r := by
  have hnone : (c.applyMessages .standard).2 = none := by
    unfold configuredRegistry at h
    split at h
    · rename_i heq
      rw [heq]
    · cases h
  obtain ⟨r', happly, hover⟩ := Config.overrides_applyMessages (Config.applyMessages_snd_eq_none_iff.1 hnone)
  rw [configuredRegistry, happly] at h
  obtain rfl := Except.ok.inj h
  exact hover

/-! ### Success and failure -/

/-- What comes of putting the messages of a configuration into a registry: the registry afterwards, and the failure that
names the first rule that is not there. -/
def Config.override (c : Config) (r : Registry) : Registry × Except Failure Unit :=
  match c.applyMessages r with
  | (r', none) => (r', .ok ())
  | (r', some name) => (r', .error (.config ("messages: no rule named \"" ++ name ++ "\" to override")))

/-- A command works with the standard registry when the messages of its configuration could be put into it. -/
private theorem Run.configuredRegistry_eq (c : Config) :
    configuredRegistry c = (c.override .standard).2.map fun _ => (c.override .standard).1 := by
  unfold configuredRegistry Config.override
  split <;> simp [*, Except.map]

namespace Registry.Overrides

variable {messages : List (String × String)} {r r' r'' : Registry}

private theorem contains_eq (h : r.Overrides messages r') (n : String) : r'.contains n = r.contains n := by
  rw [contains_eq_isSome, contains_eq_isSome, h n, Option.isSome_map]

/-- The same messages once more change nothing. -/
private theorem again (h : r.Overrides messages r') (h' : r'.Overrides messages r'') : r'' = r' := by
  refine ext_of_find? fun n => ?_
  rw [h' n, h n, Option.map_map]
  congr 1
  funext d
  cases messages.lookup n <;> rfl

end Registry.Overrides

/-- Of the entries before the first one without a property, those are found that come before its name. -/
private theorem NameMap.lookup_takeWhile {α : Type} {m : NameMap α} {p : String × α → Bool} {e : String × α}
    (h : m.entries.find? (fun x => !p x) = some e) (n : String) :
    (m.entries.takeWhile p).lookup n = if n < e.1 then m.find? n else none := by
  obtain ⟨he, before, after, hentries, hbefore⟩ := List.find?_eq_some_iff_append.1 h
  have htake : m.entries.takeWhile p = before := by
    have hall : ∀ x ∈ before, p x := fun x hx => by simpa using hbefore x hx
    rw [hentries, List.takeWhile_append_of_pos hall, List.takeWhile_cons_of_neg (by simpa using he), List.append_nil]
  have hsorted := m.sorted
  rw [hentries, List.pairwise_append, List.pairwise_cons] at hsorted
  obtain ⟨-, ⟨hafter, -⟩, hcross⟩ := hsorted
  rw [htake]
  split
  · -- from this entry on all names come later
    rename_i hlt
    have hnone : (e :: after).lookup n = none := by
      refine List.lookup_eq_none_iff.2 fun x hx => ?_
      have hne : n ≠ x.1 := by
        rcases List.mem_cons.1 hx with rfl | hx
        · exact String.ne_of_lt hlt
        · exact String.ne_of_lt (String.lt_trans hlt (hafter x hx))
      simpa using hne
    rw [find?, hentries, List.lookup_append, hnone, Option.or_none]
  · rename_i hle
    refine List.lookup_eq_none_iff.2 fun x hx => ?_
    have hne : n ≠ x.1 := by
      rintro rfl
      exact hle (hcross x hx e List.mem_cons_self)
    simpa using hne

namespace Config

private theorem exists_find?_of_applyMessages {c : Config} {r : Registry} {name : String}
    (h : (c.applyMessages r).2 = some name) :
    ∃ template, c.messages.entries.find? (fun e => !r.contains e.1) = some (name, template) := by
  rw [applyMessages, putMessages_snd, Option.map_eq_some_iff] at h
  obtain ⟨⟨_, template⟩, hfind, rfl⟩ := h
  exact ⟨template, hfind⟩

/-- The rule that a failure names is the first one, in the order of bytes, that is not there. -/
private theorem eq_or_lt_of_applyMessages {c : Config} {r : Registry} {name key : String}
    (h : (c.applyMessages r).2 = some name) (hkey : key ∈ c.messages.names) (hnot : ¬ r.contains key) :
    key = name ∨ Text.bytes name < Text.bytes key := by
  obtain ⟨template, hfind⟩ := exists_find?_of_applyMessages h
  obtain ⟨-, before, after, hentries, hbefore⟩ := List.find?_eq_some_iff_append.1 hfind
  obtain ⟨e, he, rfl⟩ := List.mem_map.1 hkey
  have hsorted := c.messages.sorted
  rw [hentries, List.pairwise_append, List.pairwise_cons] at hsorted
  rw [hentries, List.mem_append, List.mem_cons] at he
  rcases he with he | rfl | he
  · exact absurd (by simpa using hbefore e he) hnot
  · exact .inl rfl
  · exact .inr (Text.bytes_lt_iff.2 (hsorted.2.1.1 e he))

/-- Before the rule that a failure names, in the order of bytes, the messages are put in; from it on nothing changes. -/
private theorem find?_applyMessages_of_failure {c : Config} {r : Registry} {name : String}
    (h : (c.applyMessages r).2 = some name) (n : String) :
    (c.applyMessages r).1.find? n = (r.find? n).map fun d =>
      if Text.bytes n < Text.bytes name then { d with template := (c.messages.find? n).getD d.template } else d := by
  obtain ⟨template, hfind⟩ := exists_find?_of_applyMessages h
  have hover : r.Overrides (c.messages.entries.takeWhile fun e => r.contains e.1) (c.applyMessages r).1 :=
    overrides_putMessages c.messages.nodup_names
  rw [hover n, NameMap.lookup_takeWhile hfind n]
  congr 1
  funext d
  by_cases hn : n < name
  · rw [if_pos hn, if_pos (Text.bytes_lt_iff.2 hn)]
  · rw [if_neg hn, if_neg (mt Text.bytes_lt_iff.1 hn)]
    rfl

/-- What becomes of a registry into which the messages of a configuration are put, and that a command works with the
standard one after that. When all rules that have a message are there, it succeeds, each of them gets its message,
nothing else changes, and a second time changes nothing at all. Otherwise the failure names the first rule, in the order
of bytes, that is not there, and exactly the rules that come before it have got their messages. -/
theorem override_law (c : Config) (r : Registry) :
    (Run.configuredRegistry c = (c.override .standard).2.map fun _ => (c.override .standard).1) ∧
    ((∀ name ∈ c.messages.names, r.contains name) →
      ∃ r', c.override r = (r', .ok ()) ∧
        (∀ n, r'.find? n = (r.find? n).map fun d => { d with template := (c.messages.find? n).getD d.template }) ∧
        c.override r' = (r', .ok ())) ∧
    ((¬ ∀ name ∈ c.messages.names, r.contains name) →
      ∃ name r', c.override r = (r', .error (.config ("messages: no rule named \"" ++ name ++ "\" to override"))) ∧
        name ∈ c.messages.names ∧ ¬ r.contains name ∧
        (∀ key ∈ c.messages.names, ¬ r.contains key → key = name ∨ Text.bytes name < Text.bytes key) ∧
        ∀ n, r'.find? n = (r.find? n).map fun d =>
          if Text.bytes n < Text.bytes name then { d with template := (c.messages.find? n).getD d.template } else d) := by
  refine ⟨Run.configuredRegistry_eq c, ?success, ?failure⟩
  case success =>
    intro hall
    obtain ⟨r', happly, hover⟩ := overrides_applyMessages hall
    have hall' : ∀ name ∈ c.messages.names, r'.contains name := by
      intro name hname
      rw [hover.contains_eq]
      exact hall name hname
    obtain ⟨r'', happly', hover'⟩ := overrides_applyMessages hall'
    obtain rfl := hover.again hover'
    exact ⟨r'', by rw [override, happly], hover, by rw [override, happly']⟩
  case failure =>
    intro hnot
    rw [← applyMessages_snd_eq_none_iff, ← Ne, Option.ne_none_iff_exists'] at hnot
    obtain ⟨name, hname⟩ := hnot
    obtain ⟨template, hfind⟩ := exists_find?_of_applyMessages hname
    have happly : c.applyMessages r = ((c.applyMessages r).1, some name) := Prod.ext rfl hname
    refine ⟨name, (c.applyMessages r).1, by rw [override, happly], ?_, ?_, ?_, find?_applyMessages_of_failure hname⟩
    · exact List.mem_map_of_mem (List.mem_of_find?_eq_some hfind)
    · simpa using List.find?_some hfind
    · exact fun key => eq_or_lt_of_applyMessages hname

theorem override_law_phone :
    let c : Config := { messages := .ofList [("required", "Missing."), ("phone", "No."), ("alpha", "Letters.")] }
    let known : Config := { messages := .ofList [("required", "Missing."), ("alpha", "Letters.")] }
    (¬ ∀ name ∈ c.messages.names, Registry.standard.contains name) ∧
      (∃ r, c.override .standard = (r, .error (.config "messages: no rule named \"phone\" to override")) ∧
        (r.find? "alpha").map (·.template) = some "Letters." ∧
        r.find? "required" = Registry.standard.find? "required") ∧
      (∀ name ∈ known.messages.names, Registry.standard.contains name) ∧
      ∃ r, known.override .standard = (r, .ok ()) ∧ (r.find? "required").map (·.template) = some "Missing." := by
  intro c known
  have hphone : ¬ ∀ name ∈ c.messages.names, Registry.standard.contains name := by decide
  have hknown : ∀ name ∈ known.messages.names, Registry.standard.contains name := by decide
  obtain ⟨-, -, hfailure⟩ := override_law c .standard
  obtain ⟨-, hsuccess, -⟩ := override_law known .standard
  obtain ⟨name, r, happly, hname, hnot, -, hfind⟩ := hfailure hphone
  obtain rfl : name = "phone" := by
    have hall : ∀ name ∈ c.messages.names, ¬ Registry.standard.contains name → name = "phone" := by decide
    exact hall name hname hnot
  obtain ⟨r', happly', hfind', -⟩ := hsuccess hknown
  refine ⟨hphone, ⟨r, happly, ?_, ?_⟩, hknown, r', happly', ?_⟩
  · rw [hfind]
    rfl
  · have hlater : ¬ Text.bytes "required" < Text.bytes "phone" := by decide
    simp [hfind, hlater]
  · rw [hfind']
    rfl

end Config

end FieldRules
