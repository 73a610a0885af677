import FieldRules.Proofs.NameMap
import FieldRules.Storage.FileTree
import Mathlib.Data.List.TakeWhile

/-!
# Reading what was written

A path that was written to names a file with what was written. The key facts: `FileTree.follow_of_enter` (the way on which
the directories were made leads to the same place afterwards) and `FileTree.find?_write`.
-/

namespace FieldRules

namespace Path

/-- A path without an ending has a last piece that leads somewhere. -/
private theorem exists_pieces_eq_concat {path : String} (h : ending path = []) :
    ∃ front name, pieces path = front ++ [name] ∧ stays name = false ∧
      steps path = front.filter (!stays ·) ++ [name] := by
  have hne : pieces path ≠ [] := by simp [pieces, Text.split, Text.pieces_ne_nil]
  obtain ⟨front, name, hpieces⟩ := (List.eq_nil_or_concat' (pieces path)).resolve_left hne
  have hname : stays name = false := by
    rw [ending, hpieces, List.reverse_eq_nil_iff, List.reverse_concat', List.takeWhile_cons] at h
    cases hstays : stays name with
    | false => rfl
    | true => simp [hstays] at h
  exact ⟨front, name, hpieces, hname, by simp [steps, hpieces, hname]⟩

end Path

namespace FileTree

variable {t u : FileTree} {directory directory' steps : List String}

/-! ### Directories stay -/

/-- Every directory of one tree is a directory of another. -/
def Keeps (t u : FileTree) : Prop := ∀ steps, t.entry? steps = some .directory → u.entry? steps = some .directory

private theorem Keeps.refl (t : FileTree) : t.Keeps t := fun _ h => h

private theorem Keeps.trans {v : FileTree} (h : t.Keeps u) (h' : u.Keeps v) : t.Keeps v :=
  fun steps hdir => h' steps (h steps hdir)

private theorem entry?_setEntry (t : FileTree) (steps other : List String) (e : FileEntry) :
    entry? (t.setEntry steps e) other =
      if other ≠ [] ∧ "/".intercalate other = "/".intercalate steps then some e else t.entry? other := by
  cases other with
  | nil => rfl
  | cons step rest => simp [setEntry, entry?, NameMap.find?_insert]

private theorem entry?_setEntry_self (t : FileTree) (h : steps ≠ []) (e : FileEntry) :
    entry? (t.setEntry steps e) steps = some e := by
  rw [entry?_setEntry, if_pos ⟨h, rfl⟩]

/-- Below the root, entries go by their names. -/
private theorem entry?_eq_of_name_eq {other : List String} (hsteps : steps ≠ []) (hother : other ≠ [])
    (hname : "/".intercalate other = "/".intercalate steps) : t.entry? other = t.entry? steps := by
  simp [hname, entry?, hsteps, hother]

/-- An entry that is put where no directory is takes no directory away. -/
private theorem keeps_setEntry (h : t.entry? steps ≠ some .directory) (e : FileEntry) :
    t.Keeps (t.setEntry steps e) := by
  intro other hother
  rw [entry?_setEntry, if_neg ?_]
  · exact hother
  · rintro ⟨hne, hname⟩
    -- it would be the entry that is no directory
    have hsteps : steps ≠ [] := fun hnil => h (by simp [hnil, entry?])
    rw [entry?_eq_of_name_eq hsteps hne hname] at hother
    exact absurd hother h

private theorem keeps_setEntry_directory (t : FileTree) (steps : List String) :
    t.Keeps (t.setEntry steps .directory) := by
  intro other hother
  rw [entry?_setEntry]
  split
  · rfl
  · exact hother

/-! ### Making directories -/

/-- A step upwards makes nothing, and every other step leads into a directory that is there from then on. -/
private theorem enter_cons {step : String} {rest : List String} {r : FileTree × List String}
    (h : t.enter directory (step :: rest) = .ok r) :
    (step = ".." ∧ t.enter directory.dropLast rest = .ok r) ∨
      (step ≠ ".." ∧ ∃ t', t.Keeps t' ∧ t'.here = t.here ∧ t'.entry? (directory ++ [step]) = some .directory ∧
        t'.enter (directory ++ [step]) rest = .ok r) := by
  rw [enter] at h
  by_cases hup : step = ".."
  · rw [if_pos (by simpa using hup)] at h
    exact .inl ⟨hup, h⟩
  · rw [if_neg (by simpa using hup)] at h
    refine .inr ⟨hup, ?_⟩
    dsimp only at h
    split at h
    · rename_i hdir
      exact ⟨t, .refl t, rfl, hdir, h⟩
    · cases h
    · exact ⟨_, keeps_setEntry_directory t _, rfl, entry?_setEntry_self t (by simp) .directory, h⟩

private theorem here_of_enter (h : t.enter directory steps = .ok (u, directory')) : u.here = t.here := by
  induction steps generalizing t directory with
  | nil =>
    obtain ⟨rfl, -⟩ := Prod.mk.inj (Except.ok.inj h)
    rfl
  | cons step rest ih =>
    obtain ⟨-, h⟩ | ⟨-, t', -, hhere, -, h⟩ := enter_cons h
    · exact ih h
    · exact (ih h).trans hhere

private theorem keeps_of_enter (h : t.enter directory steps = .ok (u, directory')) : t.Keeps u := by
  induction steps generalizing t directory with
  | nil =>
    obtain ⟨rfl, -⟩ := Prod.mk.inj (Except.ok.inj h)
    exact .refl t
  | cons step rest ih =>
    obtain ⟨-, h⟩ | ⟨-, t', hkeeps, -, -, h⟩ := enter_cons h
    · exact ih h
    · exact hkeeps.trans (ih h)

/-! ### Following a path -/

private theorem follow_cons_of_stays {piece : String} (h : Path.stays piece = true) (t : FileTree)
    (directory rest : List String) : t.follow directory (piece :: rest) = t.follow directory rest := by
  rw [follow, if_pos (by simpa [Path.stays] using h)]

private theorem follow_cons_up (t : FileTree) (directory rest : List String) :
    t.follow directory (".." :: rest) = t.follow directory.dropLast rest := by
  rw [follow, if_neg (by decide), if_pos (by decide)]

private theorem follow_cons_down {step : String} (hstays : Path.stays step = false) (hup : step ≠ "..") (t : FileTree)
    (directory rest : List String) :
    t.follow directory (step :: rest) =
      match t.entry? (directory ++ [step]) with
      | some .directory => t.follow (directory ++ [step]) rest
      | some e => if rest.isEmpty then some e else none
      | none => none := by
  rw [follow, if_neg (by simpa [Path.stays] using hstays)]
  exact if_neg (by simpa using hup)

/-- Pieces that stay in place make no difference before the last piece. -/
private theorem follow_filter (t : FileTree) (directory front : List String) (name : String) :
    t.follow directory (front ++ [name]) = t.follow directory (front.filter (!Path.stays ·) ++ [name]) := by
  induction front generalizing directory with
  | nil => rfl
  | cons piece rest ih =>
    cases hstays : Path.stays piece with
    | true => rw [List.filter_cons_of_neg (by simp [hstays]), ← ih, List.cons_append, follow_cons_of_stays hstays]
    | false =>
      rw [List.filter_cons_of_pos (by simp [hstays]), List.cons_append, List.cons_append]
      by_cases hup : piece = ".."
      · rw [hup, follow_cons_up, follow_cons_up, ih]
      · rw [follow_cons_down hstays hup, follow_cons_down hstays hup]
        split
        · exact ih _
        · simp
        · rfl

/-- The steps along which directories were made lead to the same place in every tree that keeps the directories. -/
theorem follow_of_enter (h : t.enter directory steps = .ok (u, directory')) (hsteps : ∀ s ∈ steps, Path.stays s = false)
    {v : FileTree} (hv : u.Keeps v) (rest : List String) :
    v.follow directory (steps ++ rest) = v.follow directory' rest := by
  induction steps generalizing t directory with
  | nil =>
    obtain ⟨-, rfl⟩ := Prod.mk.inj (Except.ok.inj h)
    rfl
  | cons step others ih =>
    obtain ⟨hstep, hothers⟩ := List.forall_mem_cons.1 hsteps
    rw [List.cons_append]
    obtain ⟨rfl, h⟩ | ⟨hup, t', -, -, hdir, h⟩ := enter_cons h
    · rw [follow_cons_up, ih h hothers]
    · rw [follow_cons_down hstep hup, hv _ (keeps_of_enter h _ hdir)]
      exact ih h hothers

/-! ### Writing -/

private theorem endingFault?_eq_none_iff {e : Option FileEntry} {ending : List String} :
    endingFault? e ending = none ↔ e ≠ some .directory ∧ ending = [] := by
  unfold endingFault?
  split
  · simp_all
  · split
    · simp_all
      rintro rfl
      simp_all
    · simp_all

private theorem prepare_eq_ok_iff {path : String} :
    t.prepare path = .ok (u, steps) ↔
      ∃ name directory, Path.fileName? path = some name ∧
        t.enter (t.origin path) (Path.steps path).dropLast = .ok (u, directory) ∧ steps = directory ++ [name] := by
  rw [prepare]
  split
  · simp_all
  · rename_i name hname
    cases henter : t.enter (t.origin path) (Path.steps path).dropLast with
    | error fault => simp [bind, Except.bind]
    | ok result =>
      obtain ⟨t', directory⟩ := result
      simp [hname, bind, Except.bind, pure, Except.pure, eq_comm]

private theorem write_eq_ok_iff {path text : String} :
    t.write path text = .ok u ↔
      ∃ t' steps, t.prepare path = .ok (t', steps) ∧ t'.entry? steps ≠ some .directory ∧ Path.ending path = [] ∧
        u = t'.setEntry steps (.file (some text)) := by
  rw [write]
  cases hprepare : t.prepare path with
  | error fault => simp [bind, Except.bind]
  | ok result =>
    obtain ⟨t', steps⟩ := result
    simp only [bind, Except.bind]
    cases hfault : endingFault? (t'.entry? steps) (Path.ending path) with
    | none =>
      obtain ⟨hentry, hending⟩ := endingFault?_eq_none_iff.1 hfault
      constructor
      · intro h
        exact ⟨t', steps, rfl, hentry, hending, (Except.ok.inj h).symm⟩
      · rintro ⟨t₁, steps₁, h, -, -, rfl⟩
        obtain ⟨rfl, rfl⟩ := Prod.mk.inj (Except.ok.inj h)
        rfl
    | some fault =>
      constructor
      · intro h
        cases h
      · rintro ⟨t₁, steps₁, h, hentry, hending, -⟩
        obtain ⟨rfl, rfl⟩ := Prod.mk.inj (Except.ok.inj h)
        rw [endingFault?_eq_none_iff.2 ⟨hentry, hending⟩] at hfault
        cases hfault

/-- Whether a path can be written to does not depend on what is written. -/
theorem exists_write_of_write {path text : String} (h : t.write path text = .ok u) (text' : String) :
    ∃ u', t.write path text' = .ok u' := by
  obtain ⟨t', steps, hprepare, hentry, hending, -⟩ := write_eq_ok_iff.1 h
  exact ⟨_, write_eq_ok_iff.2 ⟨t', steps, hprepare, hentry, hending, rfl⟩⟩

/-- A path that was written to names a file with what was written. -/
theorem find?_write {path text : String} (h : t.write path text = .ok u) : u.find? path = some (.file (some text)) := by
  obtain ⟨t', steps, hprepare, hentry, hending, rfl⟩ := write_eq_ok_iff.1 h
  obtain ⟨name, directory, hname, henter, rfl⟩ := prepare_eq_ok_iff.1 hprepare
  obtain ⟨front, last, hpieces, hlast, hsteps⟩ := Path.exists_pieces_eq_concat hending
  obtain ⟨rfl, hup⟩ : last = name ∧ name ≠ ".." := by
    simpa [Path.fileName?, hsteps, Option.filter_eq_some_iff] using hname
  have hfront : (Path.steps path).dropLast = front.filter (!Path.stays ·) := by rw [hsteps, List.dropLast_concat]
  rw [hfront] at henter
  have horigin : (t'.setEntry (directory ++ [last]) (.file (some text))).origin path = t.origin path := by
    rw [origin, origin, setEntry, here_of_enter henter]
  have hempty : ¬ path.isEmpty := by
    rw [String.isEmpty_iff]
    rintro rfl
    exact absurd hname (by simp [Path.fileName?, show Path.steps "" = [] by decide])
  rw [find?, if_neg hempty, hpieces, horigin, follow_filter,
    follow_of_enter henter (by simp) (keeps_setEntry hentry _), follow_cons_down hlast hup,
    entry?_setEntry_self _ (by simp)]
  rfl

theorem read_write {path text : String} (h : t.write path text = .ok u) : u.read path = .ok text := by
  rw [read, find?_write h]

end FileTree

end FieldRules
