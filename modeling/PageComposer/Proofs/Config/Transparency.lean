/-
# Settings that are kept are those that loading gives

A process writes and removes files, changes its directory and its variables, clears the settings it keeps
and asks for settings, in any order.  What is kept has always been loaded under its key at some moment of
the process (`Cache.LoadedIn`), and equal keys stand for equal loading, so each answer is what loading would
give at that moment (`get_eq_current`).

The settings are those of the directory without detours: a leading `~` stands for a home directory here,
which it does not where settings are loaded from a directory as it is written
(`home_is_not_followed_by_loading`).
-/

import PageComposer.Config.Settings
import PageComposer.Proofs.Config.Stamps

namespace PageComposer
namespace Config

/-- What loading gives at a moment for a project directory as it is written; for the current directory if
none is given. -/
def loaded (w : FileTree) (s : Surroundings) (root : Option Path) (validate : Bool) :
    Except Fault Entries :=
  (loadSettings w s.variables (root.getD (Path.ofLocation w.here)) validate).settings

/-- What loading gives at a moment for a project directory without detours. -/
def current (w : FileTree) (s : Surroundings) (root : Option Path) (validate : Bool) :
    Except Fault Entries :=
  (fullRoot w s.homes root).bind fun dir => loaded w s (some dir) validate

theorem fullRoot_isAbsolute {w : FileTree} {homes : Homes} {root : Option Path} {dir : Path}
    (h : fullRoot w homes root = .ok dir) : dir.isAbsolute = true := by
  cases root with
  | none =>
    obtain rfl := Except.ok.inj h
    rfl
  | some p =>
    rw [fullRoot] at h
    split at h
    · cases h
    · split at h
      · cases h
      · obtain rfl := Except.ok.inj h
        rfl

/-- The current directory is without detours. -/
theorem current_none (w : FileTree) (s : Surroundings) (validate : Bool) :
    current w s none validate = loaded w s none validate := rfl

/-- An absolute path that spells its location is without detours. -/
theorem current_ofLocation {w : FileTree} {s : Surroundings} {loc : Location}
    (plain : ∀ part ∈ loc, part ≠ "..") (hnull : Text.holds (Path.ofLocation loc).text '\x00' = false)
    (validate : Bool) :
    current w s (some (Path.ofLocation loc)) validate = loaded w s (some (Path.ofLocation loc)) validate := by
  have : fullRoot w s.homes (some (Path.ofLocation loc)) = .ok (Path.ofLocation loc) := by
    rw [fullRoot, Homes.expand?_absolute _ rfl]
    simp only [hnull, Bool.false_eq_true, if_false, Path.resolve, Path.locate_ofLocation plain]
  rw [current, this]
  rfl

/-! ### One question -/

/-- The parts of a key, where it can be made. -/
theorem Key.of_eq_ok {w : FileTree} {s : Surroundings} {root : Option Path} {validate : Bool} {k : Key}
    (h : Key.of w s root validate = .ok k) :
    fullRoot w s.homes root = .ok k.root ∧ k.validate = validate ∧
      k.variables = settingVariables s.variables ∧
      stamps w (projectFilePlaces k.root) = .ok k.files := by
  unfold Key.of at h
  cases hr : fullRoot w s.homes root with
  | error f => rw [hr] at h; cases h
  | ok dir =>
    rw [hr] at h
    cases hs : stamps w (projectFilePlaces dir) with
    | error f => simp [bind, Except.bind, hs, throw, throwThe, MonadExceptOf.throw] at h
    | ok files =>
      simp only [bind, Except.bind, hs, pure, Except.pure, Except.ok.injEq] at h
      obtain rfl := h
      exact ⟨rfl, rfl, rfl, hs⟩

/-- **Where there is no key, loading ends in the same fault.** -/
theorem current_of_key_error {w : FileTree} {s : Surroundings} {root : Option Path} {validate : Bool}
    {f : Fault} (h : Key.of w s root validate = .error f) : current w s root validate = .error f := by
  unfold Key.of at h
  rw [current]
  cases hr : fullRoot w s.homes root with
  | error f' =>
    rw [hr] at h
    cases h
    rfl
  | ok dir =>
    rw [hr] at h
    cases hs : stamps w (projectFilePlaces dir) with
    | ok files => simp [bind, Except.bind, hs, pure, Except.pure] at h
    | error f' =>
      simp only [bind, Except.bind, hs, throw, throwThe, MonadExceptOf.throw, Except.error.injEq] at h
      obtain rfl := h
      simp only [Except.bind, loaded, Option.getD_some, loadSettings, projectSettings_of_stamps_error hs]

namespace Cache

/-- All that is kept has been loaded, under the key that it is kept under, from one of the trees `past`. -/
def LoadedIn (past : List FileTree) (c : Cache) : Prop :=
  ∀ k es, (k, es) ∈ c → ∃ w ∈ past, ∃ vars : Variables,
    settingVariables vars = k.variables ∧ stamps w (projectFilePlaces k.root) = .ok k.files ∧
      (loadSettings w vars k.root k.validate).settings = .ok es

theorem loadedIn_nil (past : List FileTree) : LoadedIn past [] := by
  intro k es h
  cases h

theorem LoadedIn.mono {past past' : List FileTree} {c : Cache} (h : LoadedIn past c)
    (hsub : ∀ w ∈ past, w ∈ past') : LoadedIn past' c := by
  intro k es hk
  obtain ⟨w, hw, rest⟩ := h k es hk
  exact ⟨w, hsub w hw, rest⟩

variable {past : List FileTree} {c : Cache} {w : FileTree} {s : Surroundings} {root : Option Path}
  {validate : Bool}

theorem mem_of_lookup {k : Key} {es : Entries} (h : c.lookup k = some es) : (k, es) ∈ c := by
  obtain ⟨before, after, rfl, -⟩ := List.lookup_eq_some_iff.1 h
  simp

/-- **One answer is what loading gives.** -/
theorem get_eq_current (hc : LoadedIn past c) (tell : ∀ w' ∈ past, StampsTell w' w) :
    (c.get w s root validate).1.settings = current w s root validate := by
  rw [get]
  cases hk : Key.of w s root validate with
  | error f => rw [current_of_key_error hk]
  | ok k =>
    obtain ⟨hroot, hvalidate, hvars, hstamps⟩ := Key.of_eq_ok hk
    have hcurrent : current w s root validate =
        (loadSettings w s.variables k.root validate).settings := by
      rw [current, hroot]
      rfl
    rw [hcurrent]
    cases hl : c.lookup k with
    | some es =>
      obtain ⟨w', hw', vars, hvars', hstamps', hes⟩ := hc k es (mem_of_lookup hl)
      rw [hvalidate, loadSettings_congr (tell w' hw') (fullRoot_isAbsolute hroot) hstamps' hstamps
        (hvars'.trans hvars)] at hes
      simp only [hl, hes]
    | none =>
      simp only [hl]
      split <;> rfl

/-- What is kept after an answer has been loaded too. -/
theorem loadedIn_get (hc : LoadedIn past c) : LoadedIn (w :: past) (c.get w s root validate).2 := by
  have hmono : LoadedIn (w :: past) c := hc.mono fun _ => List.mem_cons_of_mem _
  rw [get]
  cases hk : Key.of w s root validate with
  | error f => exact hmono
  | ok k =>
    obtain ⟨-, hvalidate, hvars, hstamps⟩ := Key.of_eq_ok hk
    dsimp only
    cases hl : c.lookup k with
    | some es => exact hmono
    | none =>
      dsimp only
      cases hs : (loadSettings w s.variables k.root validate).settings with
      | error f => exact hmono
      | ok es =>
        intro k' es' hmem
        rcases List.mem_cons.1 hmem with heq | hmem
        · obtain ⟨rfl, rfl⟩ := Prod.mk.inj heq
          exact ⟨w, List.mem_cons_self .., s.variables, hvars.symm, hstamps, hvalidate ▸ hs⟩
        · exact hmono k' es' hmem

end Cache

/-! ### Any number of questions -/

/-- A process: its files, what it finds around it, and the settings it keeps. -/
structure Process where
  tree : FileTree
  around : Surroundings
  cache : Cache := []

/-- What a process does. -/
inductive Step where
  | write (p : Path) (data : List UInt8) (time : Nat)
  | removeFile (p : Path)
  | makeDirectories (p : Path)
  | removeTree (p : Path)
  | enter (p : Path)
  | setVariable (name text : String)
  | unsetVariable (name : String)
  | clear
  /-- Asks whether settings are kept. -/
  | ask (root : Option Path) (validate : Bool)
  | get (root : Option Path) (validate : Bool)

namespace Process

/-- The process with other files. -/
def withTree (q : Process) (w : FileTree) : Process := { q with tree := w }

/-- The process with other variables. -/
def withVariables (q : Process) (vars : Variables) : Process :=
  { q with around := { q.around with «variables» := vars } }

/-- The process after a step.  What is refused changes nothing. -/
def next (q : Process) : Step → Process
  | .write p data time => q.withTree ((q.tree.write p data time).toOption.getD q.tree)
  | .removeFile p => q.withTree ((q.tree.removeFile p).toOption.getD q.tree)
  | .makeDirectories p => q.withTree (q.tree.makeDirectories p).1
  | .removeTree p => q.withTree (q.tree.removeTree p).1
  | .enter p =>
    match q.tree.isDirectory p with
    | .ok true => q.withTree (q.tree.enter p)
    | _ => q
  | .setVariable name text =>
    q.withVariables ((q.around.variables.filter fun v => v.1 != name) ++ [(name, text)])
  | .unsetVariable name => q.withVariables (q.around.variables.filter fun v => v.1 != name)
  | .clear => { q with cache := [] }
  | .ask _ _ => q
  | .get root validate => { q with cache := (q.cache.get q.tree q.around root validate).2 }

/-- The steps of a process, each with where it stands before the step. -/
def stages : Process → List Step → List (Process × Step)
  | _, [] => []
  | q, step :: rest => (q, step) :: stages (q.next step) rest

/-- The files at the moments before the steps. -/
def trees (q : Process) (steps : List Step) : List FileTree := (q.stages steps).map (·.1.tree)

/-- **A step keeps to what has been loaded.** -/
theorem loadedIn_next {past : List FileTree} {q : Process} (h : q.cache.LoadedIn past) (step : Step) :
    (q.next step).cache.LoadedIn (q.tree :: past) := by
  have hmono : q.cache.LoadedIn (q.tree :: past) := h.mono fun _ => List.mem_cons_of_mem _
  cases step with
  | clear => exact Cache.loadedIn_nil _
  | get root validate => exact Cache.loadedIn_get h
  | enter p =>
    simp only [next]
    split <;> exact hmono
  | _ => exact hmono

/-- Whatever has been done before, each answer is what loading gives at its moment. -/
theorem get_eq_current_of_past {past : List FileTree} {q : Process} {steps : List Step}
    (h : q.cache.LoadedIn past)
    (tell : ∀ a ∈ past ++ q.trees steps, ∀ b ∈ q.trees steps, StampsTell a b) :
    ∀ stage ∈ q.stages steps, ∀ root validate, stage.2 = .get root validate →
      (stage.1.cache.get stage.1.tree stage.1.around root validate).1.settings =
        current stage.1.tree stage.1.around root validate := by
  induction steps generalizing past q with
  | nil => intro stage hstage; cases hstage
  | cons step rest ih =>
    intro stage hstage root validate hget
    rcases List.mem_cons.1 hstage with rfl | hstage
    · refine Cache.get_eq_current h fun w' hw' => tell w' ?_ _ (List.mem_cons_self ..)
      exact List.mem_append_left _ hw'
    · refine ih (loadedIn_next h step) (fun a ha b hb => tell a ?_ b ?_) stage hstage root validate hget
      · rw [List.cons_append] at ha
        rw [trees, stages, List.map_cons, List.mem_append, List.mem_cons]
        rcases List.mem_cons.1 ha with rfl | ha
        · exact .inr (.inl rfl)
        · exact (List.mem_append.1 ha).imp_right .inr
      · exact List.mem_cons_of_mem _ hb

end Process

/-- **Keeping settings cannot be told from loading them.**  From whatever files and surroundings a process
starts with nothing kept, and whatever it does: each answer is what loading would give at that moment,
settings or fault.  It is assumed that at no two moments a project file has the same stamp and another
content. -/
theorem kept_settings_are_current (tree : FileTree) (around : Surroundings) (steps : List Step)
    (tell : ∀ a ∈ Process.trees ⟨tree, around, []⟩ steps, ∀ b ∈ Process.trees ⟨tree, around, []⟩ steps,
      StampsTell a b) :
    ∀ stage ∈ Process.stages ⟨tree, around, []⟩ steps, ∀ root validate, stage.2 = .get root validate →
      (stage.1.cache.get stage.1.tree stage.1.around root validate).1.settings =
        current stage.1.tree stage.1.around root validate :=
  Process.get_eq_current_of_past (Cache.loadedIn_nil []) tell

/-- What two trees hold tells whether the stamps in them tell the contents. -/
theorem stampsTell_of_entries {w w' : FileTree}
    (h : ∀ x ∈ w.entries, ∀ y ∈ w'.entries, (x.1, x.2.stamp) = (y.1, y.2.stamp) →
      x.2.content = y.2.content) : StampsTell w w' := by
  intro dir name hname e e' he he' hstamp
  exact h _ (FileTree.mem_entries_of_at? he) _ (FileTree.mem_entries_of_at? he') (by rw [hstamp])

/-- The project at `/p`, with a file of settings in it. -/
def sampleProject : FileTree :=
  { FileTree.ofEntries
      [(["p"], .directory),
        (["p", "htmlcompose.yaml"], .file ⟨"composition:\n  root: a\n".toUTF8.toList, 1, 0⟩)] with
    fresh := 1 }

/-- Asks for the settings of the project before and after a variable, and the file, have changed. -/
def sampleSteps : List Step :=
  [.get (some (Path.ofString "/p")) true,
   .setVariable "HTMLCOMPOSE_COMPOSITION__ROOT" "b",
   .get (some (Path.ofString "/p")) true,
   .unsetVariable "HTMLCOMPOSE_COMPOSITION__ROOT",
   .write (Path.ofString "/p/htmlcompose.yaml") "composition:\n  root: 7\n".toUTF8.toList 2,
   .get (some (Path.ofString "/p")) true,
   .get (some (Path.ofString "/p")) false]

theorem sample_settings_are_current :
    (∀ a ∈ Process.trees ⟨sampleProject, {}, []⟩ sampleSteps,
      ∀ b ∈ Process.trees ⟨sampleProject, {}, []⟩ sampleSteps, StampsTell a b) ∧
    ∀ stage ∈ Process.stages ⟨sampleProject, {}, []⟩ sampleSteps, ∀ root validate,
      stage.2 = .get root validate →
      (stage.1.cache.get stage.1.tree stage.1.around root validate).1.settings =
        current stage.1.tree stage.1.around root validate := by
  have tell : ∀ a ∈ Process.trees ⟨sampleProject, {}, []⟩ sampleSteps,
      ∀ b ∈ Process.trees ⟨sampleProject, {}, []⟩ sampleSteps, StampsTell a b :=
    fun a ha b hb => stampsTell_of_entries (by revert a b; decide +kernel)
  exact ⟨tell, kept_settings_are_current sampleProject {} sampleSteps tell⟩

/-- A project in a home directory. -/
def homeProject : FileTree :=
  { FileTree.ofEntries
      [(["home"], .directory), (["home", "p"], .directory),
        (["home", "p", "htmlcompose.yaml"], .file ⟨"composition:\n  root: kept\n".toUTF8.toList, 1, 0⟩)] with
    fresh := 1 }

/-- **A leading `~` is a home directory for settings that are kept, and a name for those that are loaded.** -/
theorem home_is_not_followed_by_loading :
    (Cache.get [] homeProject { home := "/home" } (some (Path.ofString "~/p")) true).1.settings ≠
      loaded homeProject { home := "/home" } (some (Path.ofString "~/p")) true := by
  intro h
  have hroot := congrArg (fun r => r.toOption.map fun es => textAt (sectionOf es "composition") "root" "") h
  revert hroot
  decide +kernel

end Config
end PageComposer
