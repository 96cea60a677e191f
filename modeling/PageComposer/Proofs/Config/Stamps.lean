/-
# Stamps of the project files

Settings depend on the project files through their contents, and are kept under the stamps of these files.
Where a stamp tells the content (`StampsTell`), equal keys stand for equal loading (`loadSettings_congr`).

| the stamps | loading |
| --- | --- |
| cannot be taken | ends in the same fault (`projectSettings_of_stamps_error`) |
| are the same in two trees of files | gives the same in both (`projectSettings_congr`) |
-/

import PageComposer.Config.Cache
import PageComposer.Proofs.Files.Lookup

namespace PageComposer

/-- The time of change and size of an entry, as it is kept. -/
def Entry.stamp : Entry → Nat × Nat
  | .file f => (f.modified, f.data.length)
  | .directory => (0, 0)

/-- What reading an entry depends on: the data of a file. -/
def Entry.content : Entry → Option (List UInt8)
  | .file f => some f.data
  | .directory => none

namespace FileTree

/-- The content of what is at a path, if anything is. -/
def content? (w : FileTree) (p : Path) : Except FileFault (Option (Option (List UInt8))) :=
  (w.status? p).map (Option.map Entry.content)

variable {w w' : FileTree} {p : Path}

theorem hasEntry_congr (h : w.content? p = w'.content? p) : w.hasEntry p = w'.hasEntry p := by
  have of_content (w : FileTree) : w.hasEntry p = (w.content? p).map Option.isSome := by
    rw [hasEntry, content?]
    cases w.status? p with
    | error f => rfl
    | ok e => simp [Except.map]
  rw [of_content, of_content, h]

theorem hasEntry_eq_true : w.hasEntry p = .ok true ↔ ∃ e, w.status p = .ok e := by
  rw [hasEntry]
  constructor
  · intro h
    cases hs : w.status? p with
    | error f => rw [hs] at h; cases h
    | ok e =>
      cases e with
      | none => rw [hs] at h; cases h
      | some e => exact ⟨e, status?_eq_some.1 hs⟩
  · rintro ⟨e, he⟩
    rw [status?_eq_some.2 he]
    rfl

theorem content?_of_status {e : Entry} (h : w.status p = .ok e) :
    w.content? p = .ok (some e.content) := by
  rw [content?, status?_eq_some.2 h]
  rfl

/-- Reading depends on the content. -/
theorem readPieces_congr {e e' : Entry} (he : w.status p = .ok e) (he' : w'.status p = .ok e')
    (h : e.content = e'.content) : Yaml.readPieces w p = Yaml.readPieces w' p := by
  rw [Yaml.readPieces, Yaml.readPieces, openFile, openFile, he, he']
  cases e with
  | directory =>
    cases e' with
    | directory => rfl
    | file f' => simp [Entry.content] at h
  | file f =>
    cases e' with
    | directory => simp [Entry.content] at h
    | file f' =>
      have hdata : f.data = f'.data := Option.some.inj h
      simp only [bind, Except.bind, pure, Except.pure, hdata]

/-- **A file with the same content has the same value.** -/
theorem load_congr (h : w.content? p = w'.content? p) : Yaml.load w p = Yaml.load w' p := by
  rw [Yaml.load, Yaml.load, ← hasEntry_congr h]
  cases hp : w.hasEntry p with
  | error f => rfl
  | ok there =>
    cases there with
    | false => rfl
    | true =>
      obtain ⟨e, he⟩ := hasEntry_eq_true.1 hp
      obtain ⟨e', he'⟩ := hasEntry_eq_true.1 ((hasEntry_congr h).symm.trans hp)
      rw [content?_of_status he, content?_of_status he'] at h
      rw [readPieces_congr he he' (Option.some.inj (Except.ok.inj h))]

end FileTree

namespace Config

/-- In two trees of files the stamp of a project file tells its content. -/
def StampsTell (w w' : FileTree) : Prop :=
  ∀ (dir : Location), ∀ name ∈ projectFileNames, ∀ e e' : Entry,
    w.at? (dir ++ [name]) = some e → w'.at? (dir ++ [name]) = some e' →
      e.stamp = e'.stamp → e.content = e'.content

theorem stamp?_eq (w : FileTree) (p : Path) :
    stamp? w p = (w.status? p).map (Option.map Entry.stamp) := rfl

theorem projectFilePlaces_eq (root : Path) :
    projectFilePlaces root = [root.child "htmlcompose.yaml", root.child "htmlcompose.yml"] := rfl

/-- The place of a project file is written with its name at the end. -/
theorem place_text (root : Path) : ∃ start, ∀ name, (root.child name).text = start ++ name := by
  by_cases h : root.parts = []
  · exact ⟨root.root, fun name => by simp [Path.child, Path.text, h]⟩
  · refine ⟨root.root ++ ("/".intercalate root.parts ++ "/"), fun name => ?_⟩
    simp [Path.child, Path.text, String.intercalate_append_of_ne_nil h, String.append_assoc]

/-- The name of a project file is not too long, so the way to it is only where the way to the root is. -/
theorem follow_place {w : FileTree} {loc : Location} {root : Path} {name : String}
    (hname : name ∈ projectFileNames) :
    w.follow loc (root.child name).parts = .error .nameTooLong ↔
      w.follow loc root.parts = .error .nameTooLong := by
  have hshort : name ≠ ".." ∧ ¬ name.utf8ByteSize > 255 := by
    revert name
    decide
  rw [Path.child, FileTree.follow_append]
  cases w.follow loc root.parts with
  | error why => rfl
  | ok dir =>
    rw [Except.bind, FileTree.follow]
    split
    · simp
    · simp
    · simp [FileTree.follow, hshort.1, hshort.2]

/-- The first place is too long where the second is, which is shorter. -/
theorem isTooLong_first {w : FileTree} {root : Path}
    (h : w.IsTooLong (root.child "htmlcompose.yml")) : w.IsTooLong (root.child "htmlcompose.yaml") := by
  obtain ⟨start, htext⟩ := place_text root
  have hnull : ∀ a b, Text.holds (a ++ b) '\x00' = (Text.holds a '\x00' || Text.holds b '\x00') :=
    fun a b => by simp [Text.holds, String.toList_append]
  obtain ⟨hplain, hlong⟩ := h
  rw [htext, hnull] at hplain
  refine ⟨?_, hlong.imp (fun hsize => ?_) fun hway => ?_⟩
  · rw [htext, hnull, (Bool.or_eq_false_iff.1 hplain).1]
    simp [Text.holds]
  · rw [htext, String.utf8ByteSize_append] at hsize ⊢
    have : "htmlcompose.yml".utf8ByteSize ≤ "htmlcompose.yaml".utf8ByteSize := by decide
    omega
  · rw [Path.isAbsolute_child] at hway ⊢
    exact (follow_place (by decide)).2 ((follow_place (by decide)).1 hway)

/-- **Where the stamps cannot be taken, the settings cannot be read, for the same reason.** -/
theorem projectSettings_of_stamps_error {w : FileTree} {root : Path} {f : FileFault}
    (h : stamps w (projectFilePlaces root) = .error f) :
    projectSettings w root = .error (.access f) := by
  have hfirst : w.status? (root.child "htmlcompose.yaml") = .error f := by
    rw [projectFilePlaces_eq, stamps, stamps, stamps] at h
    cases ha : w.status? (root.child "htmlcompose.yaml") with
    | error f' =>
      rw [stamp?_eq, ha] at h
      rw [Except.error.inj h]
    | ok a =>
      cases hb : w.status? (root.child "htmlcompose.yml") with
      | ok b =>
        rw [stamp?_eq, stamp?_eq, ha, hb] at h
        cases h
      | error f' =>
        have := isTooLong_first (FileTree.status?_eq_error.1 hb).1
        rw [FileTree.status?_eq_error.2 ⟨this, rfl⟩] at ha
        cases ha
  rw [projectSettings, projectFile, projectFilePlaces_eq, firstPresent, FileTree.hasEntry, hfirst]
  rfl

/-- The stamps of the project files tell the stamp of each. -/
theorem stamps_eq_ok {w : FileTree} {root : Path} {files : List (String × Nat × Nat)}
    (h : stamps w (projectFilePlaces root) = .ok files) :
    ∃ a b, stamp? w (root.child "htmlcompose.yaml") = .ok a ∧
      stamp? w (root.child "htmlcompose.yml") = .ok b ∧
      files = (a.toList.map fun t => ("htmlcompose.yaml", t)) ++
        b.toList.map fun t => ("htmlcompose.yml", t) := by
  rw [projectFilePlaces_eq, stamps, stamps, stamps] at h
  cases ha : stamp? w (root.child "htmlcompose.yaml") with
  | error f => rw [ha] at h; cases h
  | ok a =>
    cases hb : stamp? w (root.child "htmlcompose.yml") with
    | error f => rw [ha, hb] at h; cases h
    | ok b =>
      rw [ha, hb] at h
      refine ⟨a, b, rfl, rfl, ?_⟩
      rw [← Except.ok.inj h, Path.name_child, Path.name_child, List.append_nil]

/-- Which of two files has which stamp can be read off the stamps of both. -/
theorem stamps_inj {a b a' b' : Option (Nat × Nat)}
    (h : (a.toList.map fun t => ("htmlcompose.yaml", t)) ++ (b.toList.map fun t => ("htmlcompose.yml", t))
      = (a'.toList.map fun t => ("htmlcompose.yaml", t)) ++ b'.toList.map fun t => ("htmlcompose.yml", t)) :
    a = a' ∧ b = b' := by
  cases a <;> cases b <;> cases a' <;> cases b' <;> simp_all

section
variable {w w' : FileTree} {root : Path}

theorem content?_of_stamp (tell : StampsTell w w') (habs : root.isAbsolute = true) {name : String}
    (hname : name ∈ projectFileNames) (h : stamp? w (root.child name) = stamp? w' (root.child name)) :
    w.content? (root.child name) = w'.content? (root.child name) := by
  have hup : name ≠ ".." := by
    rintro rfl
    exact absurd hname (by decide)
  rw [stamp?_eq, stamp?_eq] at h
  rw [FileTree.content?, FileTree.content?]
  cases hs : w.status? (root.child name) with
  | error f =>
    cases hs' : w'.status? (root.child name) with
    | error f' => rw [hs, hs'] at h; rw [Except.error.inj h]
    | ok e' => rw [hs, hs'] at h; cases h
  | ok e =>
    cases hs' : w'.status? (root.child name) with
    | error f' => rw [hs, hs'] at h; cases h
    | ok e' =>
      rw [hs, hs'] at h
      have h : e.map Entry.stamp = e'.map Entry.stamp := Except.ok.inj h
      cases e with
      | none =>
        cases e' with
        | none => rfl
        | some e' => cases h
      | some e =>
        cases e' with
        | none => cases h
        | some e' =>
          -- both stand at one location, since the root is absolute
          have he := FileTree.at?_of_status (FileTree.status?_eq_some.1 hs)
          have he' := FileTree.at?_of_status (FileTree.status?_eq_some.1 hs')
          rw [Path.locate_child hup] at he he'
          rw [Path.locate_of_isAbsolute habs _ w.here] at he'
          have := tell _ name hname e e' he he' (Option.some.inj h)
          simp [Except.map, this]

theorem mem_of_firstPresent {ps : List Path} {p : Path} (h : firstPresent w ps = .ok (some p)) :
    p ∈ ps := by
  induction ps with
  | nil => cases h
  | cons q rest ih =>
    rw [firstPresent] at h
    split at h
    · cases h
    · obtain rfl := Option.some.inj (Except.ok.inj h)
      exact List.mem_cons_self ..
    · exact List.mem_cons_of_mem _ (ih h)

/-- **Where the stamps of the project files are the same, so are the settings in them.** -/
theorem projectSettings_congr (tell : StampsTell w w') (habs : root.isAbsolute = true)
    {files : List (String × Nat × Nat)} (h : stamps w (projectFilePlaces root) = .ok files)
    (h' : stamps w' (projectFilePlaces root) = .ok files) :
    projectSettings w root = projectSettings w' root := by
  obtain ⟨a, b, ha, hb, rfl⟩ := stamps_eq_ok h
  obtain ⟨a', b', ha', hb', heq⟩ := stamps_eq_ok h'
  obtain ⟨rfl, rfl⟩ := stamps_inj heq
  have first := content?_of_stamp tell habs (by decide) (ha.trans ha'.symm)
  have second := content?_of_stamp tell habs (by decide) (hb.trans hb'.symm)
  have hfile : projectFile w root = projectFile w' root := by
    rw [projectFile, projectFile, projectFilePlaces_eq]
    simp only [firstPresent, FileTree.hasEntry_congr first, FileTree.hasEntry_congr second]
  have hread : ∀ p ∈ projectFilePlaces root, readProjectFile w p = readProjectFile w' p := by
    intro p hp
    rw [projectFilePlaces_eq] at hp
    have : w.content? p = w'.content? p := by
      rcases List.mem_cons.1 hp with rfl | hp
      · exact first
      · rw [List.mem_singleton.1 hp]
        exact second
    rw [readProjectFile, readProjectFile, Yaml.loadOr, Yaml.loadOr, FileTree.load_congr this]
  rw [projectSettings, projectSettings, ← hfile]
  cases hf : projectFile w root with
  | error f => rfl
  | ok p =>
    cases p with
    | none => rfl
    | some p => exact hread p (mem_of_firstPresent hf)

/-- **Equal keys stand for equal loading.**  Of the environment only the variables that hold settings
count. -/
theorem loadSettings_congr (tell : StampsTell w w') (habs : root.isAbsolute = true)
    {files : List (String × Nat × Nat)} (h : stamps w (projectFilePlaces root) = .ok files)
    (h' : stamps w' (projectFilePlaces root) = .ok files) {vars vars' : Variables}
    (hvars : settingVariables vars = settingVariables vars') (validate : Bool) :
    loadSettings w vars root validate = loadSettings w' vars' root validate := by
  rw [loadSettings, loadSettings, projectSettings_congr tell habs h h', hvars]

end

end Config
end PageComposer
