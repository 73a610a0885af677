import FieldRules.Proofs.Run.Verdict

/-!
# Where configurations are looked for

Two scans go over the default paths of configuration files: loading takes the first file that can be read, and listing
the paths marks the first that is there. The key facts: `Config.load_eq` (what is loaded is what the source says),
`Run.markPaths_eq` (one path has the mark, the first that is there) and `Run.configPath_truthful_iff` (the two scans end
at the same path unless the first file that is there cannot be read).
-/

namespace FieldRules

/-! ### Paths -/

/-- A path below a directory ends as it is written. -/
private theorem Path.suffix_join (directory path : String) : path.toList <:+ (join directory path).toList := by
  unfold join
  split
  · exact List.suffix_rfl
  · split
    · simp
    · rw [String.toList_append]
      exact List.suffix_append _ _

namespace Config

private theorem ne_of_suffix {a b : String} {s t : List Char} (ha : s <:+ a.toList) (hb : t <:+ b.toList)
    (hlength : s.length = t.length) (hne : s ≠ t) : a ≠ b := by
  rintro rfl
  exact hne ((List.suffix_of_suffix_length_le ha hb (Nat.le_of_eq hlength)).eq_of_length hlength)

/-- The default paths differ from each other. -/
private theorem nodup_defaultPaths (environment : Environment) : (defaultPaths environment).Nodup := by
  unfold defaultPaths
  cases userDirectory? environment with
  | none => decide
  | some directory =>
    -- eleven characters at the end are enough to tell them apart
    have hyaml := Path.suffix_join directory "config.yaml"
    have hjson := Path.suffix_join directory "config.json"
    have hlocal : "mcheck.yaml".toList <:+ localPath.toList := by decide
    have hother : "mcheck.json".toList <:+ ".formcheck.json".toList := by decide
    have hboth : localPath ≠ ".formcheck.json" := by decide
    have hyaml' : localPath ≠ userPath directory := ne_of_suffix hlocal hyaml (by decide) (by decide)
    have hjson' : localPath ≠ Path.join directory "config.json" := ne_of_suffix hlocal hjson (by decide) (by decide)
    have hyaml'' : ".formcheck.json" ≠ userPath directory := ne_of_suffix hother hyaml (by decide) (by decide)
    have hjson'' : ".formcheck.json" ≠ Path.join directory "config.json" :=
      ne_of_suffix hother hjson (by decide) (by decide)
    have huser : userPath directory ≠ Path.join directory "config.json" :=
      ne_of_suffix hyaml hjson (by decide) (by decide)
    simp [hboth, hyaml', hjson', hyaml'', hjson'', huser]

/-! ### Loading -/

/-- The path among some whose file is loaded: the first whose file can be read. -/
def source? (files : FileTree) (paths : List String) : Option String :=
  paths.find? fun path => (ofFile files path).isOk

/-- What is loaded is the configuration of the source, and where there is none the one that sets nothing. -/
private theorem ofFirst_eq (files : FileTree) (paths : List String) :
    Except.ok (ofFirst files paths) =
      match source? files paths with
      | some path => ofFile files path
      | none => .ok {} := by
  induction paths with
  | nil => rfl
  | cons path rest ih =>
    unfold ofFirst source?
    rw [List.find?_cons]
    cases hfile : ofFile files path with
    | ok c => simp [Except.isOk, Except.toBool, hfile]
    | error failure => exact ih

theorem load_eq (files : FileTree) (environment : Environment) :
    load files environment none =
      match source? files (defaultPaths environment) with
      | some path => ofFile files path
      | none => .ok {} :=
  ofFirst_eq files (defaultPaths environment)

/-- A file that can be read is there. -/
private theorem contains_of_ofFile {files : FileTree} {path : String} (h : (ofFile files path).isOk) :
    files.contains path := by
  by_contra hnot
  simp [ofFile, DocumentType.fileText, hnot, bind, Except.bind, Except.isOk, Except.toBool] at h

end Config

/-! ### Marks -/

namespace Run

/-- The mark of a path when one of the paths is the active one. -/
def mark (files : FileTree) (active : Option String) (path : String) : String :=
  if !files.contains path then "✗" else if active = some path then "✓ (active)" else "✓"

private theorem markPaths_found (files : FileTree) (paths : List String) :
    markPaths files true paths = paths.map fun path => mark files none path ++ " " ++ path := by
  induction paths with
  | nil => rfl
  | cons path rest ih => simp [markPaths, mark, ih]

/-- The first path that is there has the mark of the active one, and no other. -/
theorem markPaths_eq (files : FileTree) {paths : List String} (hnodup : paths.Nodup) :
    markPaths files false paths =
      paths.map fun path => mark files (paths.find? files.contains) path ++ " " ++ path := by
  induction paths with
  | nil => rfl
  | cons path rest ih =>
    obtain ⟨hpath, hrest⟩ := List.nodup_cons.1 hnodup
    rw [markPaths, List.map_cons, List.find?_cons]
    cases hthere : files.contains path with
    | true =>
      simp only [Bool.or_true, markPaths_found]
      congr 1
      · simp [mark, hthere]
      · refine List.map_congr_left fun other hother => ?_
        have hne : path ≠ other := fun heq => hpath (heq ▸ hother)
        simp [mark, hne]
    | false =>
      simp only [Bool.or_false, ih hrest]
      congr 1
      simp [mark, hthere]

/-- The paths are listed with their marks, and the defaults are announced when none of them is there. -/
private theorem after_configPath {environment : Environment} (h : environment "FORMCHECK_CONFIG" = none)
    (console : Console) (e : Effects) :
    let paths := Config.defaultPaths environment
    let marked := paths.find? e.files.contains
    (configPath console environment).after e =
      e.write (String.join (paths.map fun path => Console.line (mark e.files marked path ++ " " ++ path)) ++
        if marked.isNone then console.info "No config file found, using defaults" else "") := by
  intro paths marked
  have hlines : markPaths e.files false paths = paths.map fun path => mark e.files marked path ++ " " ++ path :=
    markPaths_eq e.files (Config.nodup_defaultPaths environment)
  have hnone : (!paths.any e.files.contains) = marked.isNone := by
    rw [Bool.eq_iff_iff]
    simp [marked]
  unfold configPath
  simp only [h, after_bind, result_files, after_files, result_print, after_print]
  rw [hlines, List.map_map, after_ite, hnone]
  cases marked.isNone with
  | true => simp [Effects.write, String.append_assoc, Function.comp_def]
  | false => simp [Effects.write, Function.comp_def]

private theorem result_configPath (console : Console) (environment : Environment) (e : Effects) :
    (configPath console environment).result e = .ok () := by
  unfold configPath
  cases environment "FORMCHECK_CONFIG" <;>
    simp only [result_bind, result_pure, result_files, after_files, result_print, after_print, result_ite, ite_self] <;>
    rfl

/-! ### The two scans -/

/-- Of two scans the stricter one ends at the same place as the other, unless it passes that place over. -/
private theorem find?_eq_find?_iff {α : Type} {p q : α → Bool} (h : ∀ a, q a → p a) (l : List α) :
    l.find? p = l.find? q ↔ ∀ a, l.find? p = some a → q a := by
  constructor
  · intro heq a ha
    exact List.find?_some (heq ▸ ha)
  · intro hall
    induction l with
    | nil => rfl
    | cons a rest ih =>
      rw [List.find?_cons, List.find?_cons]
      cases hp : p a with
      | true =>
        have hq : q a := hall a (by simp [hp])
        simp [hq]
      | false =>
        have hq : q a = false := by
          by_contra hq
          exact absurd (h a (by simpa using hq)) (by simp [hp])
        simp only [hq]
        exact ih fun b hb => hall b (by simpa [hp] using hb)

/-- Listing the paths marks the first that is there, and announces the defaults where none is; loading takes the first
that can be read, and the defaults where none can. So what is marked or announced is what is loaded, unless there is a
first path that is there and cannot be read. -/
theorem configPath_truthful_iff {environment : Environment} (h : environment "FORMCHECK_CONFIG" = none)
    (console : Console) (e : Effects) :
    let paths := Config.defaultPaths environment
    let marked := paths.find? e.files.contains
    let source := Config.source? e.files paths
    (configPath console environment).result e = .ok () ∧
      (configPath console environment).after e =
        e.write (String.join (paths.map fun path => Console.line (mark e.files marked path ++ " " ++ path)) ++
          if marked.isNone then console.info "No config file found, using defaults" else "") ∧
      Config.load e.files environment none =
        (match source with
        | some path => Config.ofFile e.files path
        | none => .ok {}) ∧
      (marked = source ↔ ∀ path, marked = some path → ∃ c, Config.ofFile e.files path = .ok c) := by
  intro paths marked source
  refine ⟨result_configPath console environment e, after_configPath h console e, Config.load_eq e.files environment, ?_⟩
  have hscans : marked = source ↔ ∀ path, marked = some path → (Config.ofFile e.files path).isOk :=
    find?_eq_find?_iff (fun _ hok => Config.contains_of_ofFile hok) paths
  rw [hscans]
  refine forall_congr' fun path => imp_congr_right fun _ => ?_
  cases Config.ofFile e.files path <;> simp [Except.isOk, Except.toBool]

private def atHome : Environment := fun name => if name = "HOME" then some "/nonexistent" else none

private def configFiles (yaml : String) : FileTree :=
  ((FileTree.bare []).setEntry [".formcheck.yaml"] (.file (some yaml))).setEntry [".formcheck.json"]
    (.file (some "\x7b\"output\":\x7b\"color\":false\x7d\x7d"))

/-- A file of comments alone sets nothing and is loaded, although another file sets something. -/
theorem configPath_truthful_comment :
    let console : Console := ⟨.human, false, false, 0⟩
    let e : Effects := { files := configFiles "# later" }
    atHome "FORMCHECK_CONFIG" = none ∧
      ((configPath console atHome).after e).output =
        "✓ (active) .formcheck.yaml\n✓ .formcheck.json\n✗ /nonexistent/.config/formcheck/config.yaml\n" ++
          "✗ /nonexistent/.config/formcheck/config.json\n" ∧
      (Config.defaultPaths atHome).find? e.files.contains = Config.source? e.files (Config.defaultPaths atHome) ∧
      Config.load e.files atHome none = .ok {} := by
  intro console e
  have hhome : atHome "FORMCHECK_CONFIG" = none := by decide
  have hmarked : (Config.defaultPaths atHome).find? e.files.contains = some ".formcheck.yaml" := by decide +kernel
  have hfile : Config.ofFile e.files ".formcheck.yaml" = .ok {} := by decide +kernel
  obtain ⟨-, -, hload, hscans⟩ := configPath_truthful_iff hhome console e
  have hsource : (Config.defaultPaths atHome).find? e.files.contains =
      Config.source? e.files (Config.defaultPaths atHome) := by
    refine hscans.2 fun path hpath => ?_
    obtain rfl : ".formcheck.yaml" = path := Option.some_inj.1 (hmarked.symm.trans hpath)
    exact ⟨_, hfile⟩
  refine ⟨hhome, by decide +kernel, hsource, ?_⟩
  rw [hload, ← hsource, hmarked]
  exact hfile

/-- A file that cannot be read is marked as the active one, and the next one is loaded. -/
theorem not_configPath_truthful_malformed :
    let console : Console := ⟨.human, false, false, 0⟩
    let e : Effects := { files := configFiles "output: [" }
    atHome "FORMCHECK_CONFIG" = none ∧
      ((configPath console atHome).after e).output =
        "✓ (active) .formcheck.yaml\n✓ .formcheck.json\n✗ /nonexistent/.config/formcheck/config.yaml\n" ++
          "✗ /nonexistent/.config/formcheck/config.json\n" ∧
      (∀ c, Config.ofFile e.files ".formcheck.yaml" ≠ .ok c) ∧
      Config.load e.files atHome none = Config.ofFile e.files ".formcheck.json" ∧
      Config.ofFile e.files ".formcheck.json" = .ok { output := { color := false } } := by
  intro console e
  refine ⟨by decide, ?_, ?_, ?_, ?_⟩
  · decide +kernel
  · have h : Config.ofFile e.files ".formcheck.yaml" = .error (.yaml DocumentFault.yaml.reason) := by decide +kernel
    simp [h]
  · decide +kernel
  · decide +kernel

end Run

end FieldRules
