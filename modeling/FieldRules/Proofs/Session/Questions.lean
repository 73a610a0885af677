import FieldRules.Proofs.Session.Matching

/-!
# What evaluators are asked

A session asks the evaluator of a rule whether a field passes with the parameters of a call (`Question`), and
`Session.questions` lists what is asked in the order of the walk. The key facts: `Session.mem_questions` (a question has
as many parameters as its rule declares) and `Session.walk_congr` (what a walk comes to depends on the declarations of
the rules and on the answers to the questions, and on nothing else that the evaluators would say).
-/

namespace FieldRules

/-- What an evaluator is asked: whether a field passes its rule with some parameters. -/
structure Question where
  rule : RuleDefinition
  field : Field
  params : List RuleParam

def Question.answer (q : Question) : Except Fault Bool := q.rule.evaluate q.field q.params

/-- Two definitions that differ in what their evaluators say at most. -/
structure RuleDefinition.DeclaredAs (d d' : RuleDefinition) : Prop where
  parameterCount : d'.parameterCount = d.parameterCount
  template : d'.template = d.template

/-- Two registries that have the same rules up to what the evaluators say. -/
def Registry.DeclaredAs (r r' : Registry) : Prop :=
  ∀ name, Option.Rel RuleDefinition.DeclaredAs (r.find? name) (r'.find? name)

/-- The evaluators of two registries agree whenever they get as many parameters as the rule declares. -/
def Registry.AgreesAtCounts (r r' : Registry) : Prop :=
  ∀ name, ∀ d ∈ r.find? name, ∀ d' ∈ r'.find? name, ∀ (field : Field) (params : List RuleParam),
    params.length = d.parameterCount → d'.evaluate field params = d.evaluate field params

/-- The rule of the same name in a registry answers a question in the same way. -/
def Registry.AnswersAlike (r : Registry) (q : Question) : Prop :=
  ∀ d ∈ r.find? q.rule.name, (Question.mk d q.field q.params).answer = q.answer

/-- The questions of running one call: none when the rule is not there or takes another number of parameters. -/
def Registry.questions (r : Registry) (field : Field) (call : RuleCall) : List Question :=
  match r.resolve field.name call with
  | .ok d => [⟨d, field, call.params⟩]
  | .error _ => []

namespace Session

/-- The questions of checking tokens, up to the first one that the field does not pass. -/
def tokenQuestions (registry : Registry) (field : Field) : List String → List Question
  | [] => []
  | token :: rest =>
    match RuleCall.read token with
    | .error _ => []
    | .ok call =>
      registry.questions field call ++
        match execute registry field call with
        | .ok ⟨_, none⟩ => tokenQuestions registry field rest
        | _ => []

/-- The questions of a walk, up to its end. -/
def walkQuestions (source : FieldSource) (registry : Registry) : List FieldSpec → List Question
  | [] => []
  | spec :: rest =>
    match source spec.field with
    | none => walkQuestions source registry rest
    | some field =>
      tokenQuestions registry field (RuleCall.tokens spec.rules) ++
        match checkField registry spec field with
        | .ok _ => walkQuestions source registry rest
        | .error _ => []

def questions (s : Session) : List Question := walkQuestions s.source s.registry s.specs

end Session

/-! ### Questions have the declared number of parameters -/

section Resolve

variable {r : Registry} {field : Field} {call : RuleCall}

private theorem Registry.resolve_eq_ok_iff {name : String} {d : RuleDefinition} :
    r.resolve name call = .ok d ↔ r.find? call.name = some d ∧ d.parameterCount = call.params.length := by
  unfold resolve
  cases hfind : r.find? call.name with
  | none =>
    rw [lookup_of_find?_eq_none hfind]
    simp [bind, Except.bind]
  | some d' =>
    rw [lookup_of_find? hfind]
    by_cases hcount : d'.parameterCount = call.params.length
    · simp only [bind, Except.bind, hcount, if_true, pure, Except.pure, Except.ok.injEq, Option.some.injEq]
      constructor
      · rintro rfl
        exact ⟨rfl, hcount⟩
      · exact fun h => h.1
    · simp only [bind, Except.bind, hcount, if_false, Option.some.injEq]
      constructor
      · intro h
        cases h
      · rintro ⟨rfl, h⟩
        exact absurd h hcount

private theorem Registry.mem_questions {q : Question} (h : q ∈ r.questions field call) :
    r.find? q.rule.name = some q.rule ∧ q.params.length = q.rule.parameterCount := by
  unfold questions at h
  cases hresolve : r.resolve field.name call with
  | error fault => simp [hresolve] at h
  | ok d =>
    obtain rfl : q = ⟨d, field, call.params⟩ := by simpa [hresolve] using h
    obtain ⟨hfind, hcount⟩ := resolve_eq_ok_iff.1 hresolve
    exact ⟨by rw [name_eq_of_find? hfind, hfind], hcount.symm⟩

end Resolve

namespace Session

private theorem mem_tokenQuestions {registry : Registry} {field : Field} {q : Question} {tokens : List String}
    (h : q ∈ tokenQuestions registry field tokens) :
    registry.find? q.rule.name = some q.rule ∧ q.params.length = q.rule.parameterCount := by
  induction tokens with
  | nil => simp [tokenQuestions] at h
  | cons token rest ih =>
    unfold tokenQuestions at h
    split at h
    · simp at h
    · rcases List.mem_append.1 h with h | h
      · exact Registry.mem_questions h
      · split at h
        · exact ih h
        · simp at h

private theorem mem_walkQuestions {source : FieldSource} {registry : Registry} {q : Question} {specs : List FieldSpec}
    (h : q ∈ walkQuestions source registry specs) :
    registry.find? q.rule.name = some q.rule ∧ q.params.length = q.rule.parameterCount := by
  induction specs with
  | nil => simp [walkQuestions] at h
  | cons spec rest ih =>
    unfold walkQuestions at h
    split at h
    · exact ih h
    · rcases List.mem_append.1 h with h | h
      · exact mem_tokenQuestions h
      · split at h
        · exact ih h
        · simp at h

/-- A question is about a rule of the registry and has as many parameters as the rule declares. -/
theorem mem_questions {s : Session} {q : Question} (h : q ∈ s.questions) :
    s.registry.find? q.rule.name = some q.rule ∧ q.params.length = q.rule.parameterCount :=
  mem_walkQuestions h

end Session

/-! ### The answers decide what a walk comes to -/

section Resolve

variable {r r' : Registry} {field : Field} {call : RuleCall}

private theorem Registry.DeclaredAs.resolve (hr : r.DeclaredAs r') (name : String) (call : RuleCall) :
    (∃ d d', r.resolve name call = .ok d ∧ r'.resolve name call = .ok d' ∧ d'.name = d.name ∧ d.DeclaredAs d') ∨
      ∃ fault, r.resolve name call = .error fault ∧ r'.resolve name call = .error fault := by
  have hname := hr call.name
  cases hfind : r.find? call.name with
  | none =>
    rw [hfind] at hname
    cases hfind' : r'.find? call.name with
    | some d' => rw [hfind'] at hname; cases hname
    | none =>
      refine .inr ⟨.unknownRule call.name, ?_, ?_⟩
      · rw [Registry.resolve, lookup_of_find?_eq_none hfind]; rfl
      · rw [Registry.resolve, lookup_of_find?_eq_none hfind']; rfl
  | some d =>
    rw [hfind] at hname
    cases hfind' : r'.find? call.name with
    | none => rw [hfind'] at hname; cases hname
    | some d' =>
      rw [hfind'] at hname
      obtain ⟨hd⟩ := hname
      have hsame : d'.name = d.name := by rw [name_eq_of_find? hfind', name_eq_of_find? hfind]
      by_cases hcount : d.parameterCount = call.params.length
      · have hcount' : d'.parameterCount = call.params.length := by rw [hd.parameterCount, hcount]
        exact .inl ⟨d, d', resolve_eq_ok_iff.2 ⟨hfind, hcount⟩, resolve_eq_ok_iff.2 ⟨hfind', hcount'⟩, hsame, hd⟩
      · -- both registries refuse the call with the number that they declare alike
        have hcount' : ¬ d'.parameterCount = call.params.length := by rwa [hd.parameterCount]
        refine .inr ⟨.arity name d.name call.canonical d.parameterCount call.params.length, ?_, ?_⟩
        · simp only [Registry.resolve, lookup_of_find? hfind, bind, Except.bind, hcount, if_false]
          rfl
        · simp only [Registry.resolve, lookup_of_find? hfind', bind, Except.bind, hcount', if_false]
          rw [hsame, hd.parameterCount]
          rfl

private theorem execute_congr (hr : r.DeclaredAs r') (h : ∀ q ∈ r.questions field call, r'.AnswersAlike q) :
    execute r' field call = execute r field call := by
  unfold execute
  rcases hr.resolve field.name call with ⟨d, d', hd, hd', hname, hdeclared⟩ | ⟨fault, hd, hd'⟩
  · have hq : ⟨d, field, call.params⟩ ∈ r.questions field call := by simp [Registry.questions, hd]
    have hfind' : r'.find? d.name = some d' := by
      obtain ⟨hfind, -⟩ := Registry.resolve_eq_ok_iff.1 hd
      obtain ⟨hfind', -⟩ := Registry.resolve_eq_ok_iff.1 hd'
      rwa [Registry.name_eq_of_find? hfind]
    have hanswer : d'.evaluate field call.params = d.evaluate field call.params := h _ hq d' hfind'
    rw [hd, hd']
    simp only [bind, Except.bind, hanswer, hdeclared.template]
  · rw [hd, hd']

end Resolve

namespace Session

variable {source : FieldSource} {r r' : Registry}

private theorem checkTokens_congr (hr : r.DeclaredAs r') (spec : FieldSpec) {field : Field} {tokens : List String}
    (h : ∀ q ∈ tokenQuestions r field tokens, r'.AnswersAlike q) :
    checkTokens r' spec field tokens = checkTokens r spec field tokens := by
  induction tokens with
  | nil => rfl
  | cons token rest ih =>
    cases hread : RuleCall.read token with
    | error fault => simp only [checkTokens, hread]; rfl
    | ok call =>
      simp only [tokenQuestions, hread, List.forall_mem_append] at h
      obtain ⟨hfirst, hrest⟩ := h
      simp only [checkTokens, hread, Except.mapError, bind, Except.bind, execute_congr hr hfirst]
      cases hrun : execute r field call with
      | error fault => rfl
      | ok outcome =>
        obtain ⟨params, template⟩ := outcome
        cases template with
        | some template => rfl
        | none =>
          simp only [hrun] at hrest
          exact ih hrest

/-- A walk depends on what the rules declare and on the answers to its questions. -/
theorem walk_congr (hr : r.DeclaredAs r') {specs : List FieldSpec}
    (h : ∀ q ∈ walkQuestions source r specs, r'.AnswersAlike q) : walk source r' specs = walk source r specs := by
  induction specs with
  | nil => rfl
  | cons spec rest ih =>
    unfold walkQuestions at h
    unfold walk
    cases hfield : source spec.field with
    | none =>
      simp only [hfield] at h
      rw [ih h]
    | some field =>
      simp only [hfield, List.forall_mem_append] at h
      obtain ⟨hfirst, hrest⟩ := h
      have hcheck : checkField r' spec field = checkField r spec field := checkTokens_congr hr spec hfirst
      simp only [hcheck]
      cases hfound : checkField r spec field with
      | error fault => rfl
      | ok found =>
        simp only [hfound] at hrest
        simp only [ih hrest]

/-- What an evaluator would say to another number of parameters than its rule declares never matters. Registries with
the same declarations whose evaluators agree at the declared numbers give the same errors, fault and warnings; every
question that an evaluator is asked has the number of parameters that its rule declares, and the answers to these
questions are all that a session takes from the evaluators. -/
theorem evaluate_isolates_counts (s : Session) :
    (∀ r', s.registry.DeclaredAs r' → s.registry.AgreesAtCounts r' →
      (Session.mk s.source r' s.specs).evaluate = s.evaluate) ∧
    (∀ q ∈ s.questions, s.registry.find? q.rule.name = some q.rule ∧ q.params.length = q.rule.parameterCount) ∧
    (∀ r', s.registry.DeclaredAs r' → (∀ q ∈ s.questions, r'.AnswersAlike q) →
      (Session.mk s.source r' s.specs).evaluate = s.evaluate) := by
  have hanswers (r' : Registry) (hr : s.registry.DeclaredAs r') (h : ∀ q ∈ s.questions, r'.AnswersAlike q) :
      (Session.mk s.source r' s.specs).evaluate = s.evaluate := by
    unfold evaluate
    simp only [walk_congr hr h]
  refine ⟨?_, fun q hq => mem_questions hq, hanswers⟩
  intro r' hr hagree
  apply hanswers r' hr
  intro q hq d' hd'
  obtain ⟨hfind, hcount⟩ := mem_questions hq
  exact hagree q.rule.name q.rule hfind d' hd' q.field q.params hcount

/-- An evaluator that gives up without its two parameters is as good as one that never does. -/
theorem evaluate_isolates_counts_pair :
    let lenient : RuleDefinition := ⟨"pair", 2, fun _ _ => .ok true, ""⟩
    let strict : RuleDefinition :=
      ⟨"pair", 2, fun _ params => if params.length = 2 then .ok true else .error (.evaluation ["no pair"]), ""⟩
    let source : FieldSource := fun name => some { name }
    let specs : List FieldSpec := [⟨"a", "pair(1,2)"⟩, ⟨"b", "pair(1)"⟩]
    strict.evaluate { name := "b" } [.text "1"] ≠ lenient.evaluate { name := "b" } [.text "1"] ∧
      (Session.mk source (Registry.empty.register strict).2 specs).evaluate =
        (Session.mk source (Registry.empty.register lenient).2 specs).evaluate := by
  intro lenient strict source specs
  have hnone (name : String) : Registry.empty.find? name = none := rfl
  refine ⟨by decide, ?_⟩
  refine (evaluate_isolates_counts ⟨source, (Registry.empty.register lenient).2, specs⟩).1 _ ?_ ?_
  · intro name
    rw [Registry.find?_register, Registry.find?_register]
    split
    · exact .some ⟨rfl, rfl⟩
    · exact .none
  · intro name d hd d' hd' field params hcount
    rw [Registry.find?_register] at hd hd'
    split at hd
    · obtain rfl := Option.some.inj hd
      rw [if_pos ‹_›] at hd'
      obtain rfl := Option.some.inj hd'
      exact if_pos hcount
    · cases hd

end Session

end FieldRules
