/-
# Building keeps the pages

Emptying the output directory is refused where that would remove pages (`PageBuilder.refusal?`), and each
result is written into the output directory.  So a build changes no page, whatever it ends in, unless the
output directory is the pages directory (`build_keeps_pages`).

In that case emptying is refused if there is an output directory as it is written.  If there is none, since
a directory on the way is missing, making it makes the way, and the results take the place of the pages
(`missing_way_leads_to_pages`).
-/

import PageComposer.Proofs.Pages.Selection
import PageComposer.Proofs.Pages.Stages

namespace PageComposer

/-- Passes no records on. -/
def Listener.quiet : Listener := fun w _ => w

namespace Build

theorem tree_noteAll_quiet (build : Build) (rs : List Logging.Record) :
    (build.noteAll .quiet rs).tree = build.tree := by
  induction rs generalizing build with
  | nil => rfl
  | cons r rs ih => exact ih (build.note .quiet r)

/-- Remarks change the log alone. -/
theorem foldl_say_quiet (build : Build) (level : Int) (message : String → String) (texts : List String) :
    ∃ log, texts.foldl (fun build m => build.say .quiet level (message m)) build =
      { build with log := log } := by
  induction texts generalizing build with
  | nil => exact ⟨build.log, rfl⟩
  | cons m rest ih =>
    obtain ⟨log, h⟩ := ih (build.say .quiet level (message m))
    exact ⟨log, h⟩

end Build

namespace PageBuilder

variable {b : PageBuilder} {time : Nat}

/-! ### One page -/

/-- What a page can change: nothing, or what is written at its target. -/
theorem tree_of_buildPage (build : Build) (page : String × Path) :
    (b.buildPage .quiet time build page).tree = build.tree ∨
      ∃ data, build.tree.write (b.target page) data time =
        .ok (b.buildPage .quiet time build page).tree := by
  unfold buildPage
  split
  · exact .inl rfl
  · dsimp only
    split
    · exact .inl rfl
    · split
      · exact .inl rfl
      · rename_i cs hread
        have hnoted : ∀ run : Run, (run.log.reverse.foldl (fun build record => build.note .quiet record)
            build).tree = build.tree := fun run => Build.tree_noteAll_quiet build _
        split
        · split
          · exact .inl (hnoted _)
          · rename_i w hw
            rw [hnoted] at hw
            exact .inr ⟨_, hw⟩
        · exact .inl (hnoted _)
        · exact .inl (hnoted _)

/-- A page does not end a build for the sake of the sources. -/
theorem buildPage_of_holdsSource {listen : Listener} {build : Build} {page : String × Path}
    {out source : Path} {label : String}
    (h : (b.buildPage listen time build page).fault? = some (.holdsSource out label source)) :
    b.buildPage listen time build page = build := by
  have noted : ∀ (build : Build) (rs : List Logging.Record), build.fault? = none →
      (rs.foldl (fun build record => build.note listen record) build).fault? = none := by
    intro build rs
    induction rs generalizing build with
    | nil => exact id
    | cons r rs ih => exact fun hb => ih (build.note listen r) hb
  unfold buildPage at h ⊢
  split
  · rfl
  · rename_i hb
    have hb : build.fault? = none := by simpa using hb
    rw [hb] at h
    simp only [Option.isSome_none, Bool.false_eq_true, if_false] at h
    split at h
    · cases h
    · split at h
      · cases h
      · split at h
        · split at h
          · cases h
          · rw [Build.say, Build.note] at h
            dsimp only at h
            rw [noted _ _ hb] at h
            cases h
        · cases h
        · rw [noted _ _ hb] at h
          cases h

theorem foldl_of_ended {listen : Listener} {build : Build} (h : build.fault?.isSome = true)
    (pages : List (String × Path)) : pages.foldl (b.buildPage listen time) build = build := by
  induction pages with
  | nil => rfl
  | cons page rest ih =>
    have : b.buildPage listen time build page = build := by rw [buildPage, if_pos h]
    rw [List.foldl_cons, this, ih]

/-! ### Before the first page -/

/-- What becomes of the output directory before the first page. -/
inductive Prepared (b : PageBuilder) (build : Build) : Build → Prop
  | refused {fault : BuildFault} (asked : b.emptyOutDir = true)
      (there : build.tree.hasEntry b.outDir ≠ .ok false) : Prepared b build (build.stop fault)
  | made (missing : b.emptyOutDir = true → build.tree.hasEntry b.outDir = .ok false) :
      Prepared b build (build.carryOn (build.tree.makeDirectories b.outDir))
  | stuck {w : FileTree} {f : FileFault} (asked : b.emptyOutDir = true)
      (allowed : b.refusal? build.tree = none)
      (removed : build.tree.removeTree b.outDir = (w, some f)) :
      Prepared b build (build.carryOn (w, some f))
  | emptied {w : FileTree} (asked : b.emptyOutDir = true) (allowed : b.refusal? build.tree = none)
      (removed : build.tree.removeTree b.outDir = (w, none)) :
      Prepared b build (build.carryOn (w.makeDirectories b.outDir))

theorem prepared_prepare {build : Build} (hb : build.fault? = none) :
    Prepared b build (b.prepare build) := by
  unfold prepare
  cases hask : b.emptyOutDir with
  | false =>
    simp only [Bool.false_eq_true, if_false, hb, Option.isSome_none]
    exact .made fun h => by rw [hask] at h; cases h
  | true =>
    cases hthere : build.tree.hasEntry b.outDir with
    | error f => exact .refused hask (by rw [hthere]; nofun)
    | ok there =>
      cases there with
      | false =>
        simp only [if_true, hb, Option.isSome_none, Bool.false_eq_true, if_false]
        exact .made fun _ => hthere
      | true =>
        cases hrefusal : b.refusal? build.tree with
        | some fault => exact .refused hask (by rw [hthere]; nofun)
        | none =>
          rcases hr : build.tree.removeTree b.outDir with ⟨w, _ | f⟩
          · exact .emptied hask hrefusal hr
          · exact .stuck hask hrefusal hr

/-- What may be emptied does not hold the pages. -/
theorem not_prefix_of_allowed {w : FileTree} (h : b.refusal? w = none) :
    ¬ b.outDir.locate w.here <+: b.pagesDir.locate w.here := by
  intro hp
  have hp : (b.outDir.resolve w.here).parts.isPrefixOf (b.pagesDir.resolve w.here).parts = true :=
    List.isPrefixOf_iff_prefix.2 hp
  unfold refusal? at h
  dsimp only at h
  rw [List.findSome?_cons] at h
  by_cases hnull : Text.holds b.pagesDir.text '\x00' = true
  · simp [hnull] at h
  · simp [hnull, hp] at h

/-- `w'` is seen from where `w` is, and all files of `w` that are directly in `dir` are in it. -/
structure KeepsFiles (dir : Location) (w w' : FileTree) : Prop where
  here : w'.here = w.here
  files : ∀ name f, w.at? (dir ++ [name]) = some (.file f) → w'.at? (dir ++ [name]) = some (.file f)

theorem KeepsFiles.refl (dir : Location) (w : FileTree) : KeepsFiles dir w w := ⟨rfl, fun _ _ h => h⟩

theorem KeepsFiles.trans {dir : Location} {a b c : FileTree} (h₁ : KeepsFiles dir a b)
    (h₂ : KeepsFiles dir b c) : KeepsFiles dir a c :=
  ⟨h₂.here.trans h₁.here, fun name f h => h₂.files name f (h₁.files name f h)⟩

theorem keepsFiles_makeDirectories (dir : Location) (w : FileTree) (p : Path) :
    KeepsFiles dir w (w.makeDirectories p).1 := by
  obtain ⟨hgrown, -⟩ := w.grown_of_makeDirectoriesFrom p p.parts.length
  exact ⟨hgrown.here, fun _ _ => hgrown.at?_of_some⟩

/-- Emptying the output directory is refused, or keeps the pages. -/
theorem keepsFiles_prepare {build : Build} (hb : build.fault? = none) :
    KeepsFiles (b.pagesDir.locate build.tree.here) build.tree (b.prepare build).tree := by
  have removed : b.refusal? build.tree = none →
      KeepsFiles (b.pagesDir.locate build.tree.here) build.tree (build.tree.removeTree b.outDir).1 := by
    refine fun hallowed => ⟨FileTree.removeTree_here .., fun name f hf => ?_⟩
    refine FileTree.file_of_removeTree hf (Bool.eq_false_iff.2 fun hbelow => ?_)
    -- what holds a page and is not that page holds the directory of the pages
    obtain ⟨hp, hne⟩ := FileTree.isBelow_iff.1 hbelow
    rcases List.prefix_concat_iff.1 hp with heq | hp
    · exact hne heq.symm
    · exact not_prefix_of_allowed hallowed hp
  have hp := prepared_prepare (b := b) hb
  revert hp
  generalize b.prepare build = after
  intro hp
  cases hp with
  | refused => exact .refl ..
  | made => exact keepsFiles_makeDirectories ..
  | stuck _ hallowed hr => exact (hr ▸ removed hallowed :)
  | emptied _ hallowed hr =>
    have := removed hallowed
    rw [hr] at this
    exact this.trans (keepsFiles_makeDirectories ..)

/-! ### The whole build -/

theorem target_eq {page : String × Path} (hname : IsName page.2.name) :
    b.target page = b.outDir.child page.2.name := Path.join_name _ hname

/-- The result of a page is written beside the pages only where the output directory is that of the
pages. -/
theorem keepsFiles_buildPage {build : Build} {page : String × Path} (hname : IsName page.2.name)
    (apart : b.outDir.locate build.tree.here ≠ b.pagesDir.locate build.tree.here) :
    KeepsFiles (b.pagesDir.locate build.tree.here) build.tree
      (b.buildPage .quiet time build page).tree := by
  rcases @tree_of_buildPage b time build page with h | ⟨data, hw⟩
  · rw [h]
    exact .refl ..
  · rw [target_eq hname] at hw
    have hwritten := FileTree.written_of_write hw
    rw [Path.locate_child hname.up] at hwritten
    refine ⟨hwritten.here, fun name f hf => ?_⟩
    rw [hwritten.others, hf]
    exact fun heq => apart (List.append_inj' heq rfl).1.symm

theorem keepsFiles_foldl {pages : List (String × Path)} (hnames : ∀ page ∈ pages, IsName page.2.name)
    {build : Build}
    (apart : b.outDir.locate build.tree.here ≠ b.pagesDir.locate build.tree.here) :
    KeepsFiles (b.pagesDir.locate build.tree.here) build.tree
      (pages.foldl (b.buildPage .quiet time) build).tree := by
  induction pages generalizing build with
  | nil => exact .refl ..
  | cons page rest ih =>
    have hpage : KeepsFiles _ _ (b.buildPage .quiet time build page).tree :=
      keepsFiles_buildPage (hnames page (List.mem_cons_self ..)) apart
    have hrest := ih (fun p hp => hnames p (List.mem_cons_of_mem _ hp)) (hpage.here.symm ▸ apart)
    exact hpage.trans (hpage.here ▸ hrest)

/-- Where the output directory is that of the pages and is there, a build ends before the first page. -/
theorem fault_of_same {build : Build} (hb : build.fault? = none) (asked : b.emptyOutDir = true)
    (there : build.tree.hasEntry b.outDir ≠ .ok false)
    (same : b.outDir.locate build.tree.here = b.pagesDir.locate build.tree.here) :
    (b.prepare build).fault?.isSome = true := by
  have hp := prepared_prepare (b := b) hb
  revert hp
  generalize b.prepare build = after
  intro hp
  cases hp with
  | refused => rfl
  | made missing => exact absurd (missing asked) there
  | stuck _ hallowed | emptied _ hallowed =>
    exact absurd (same ▸ List.prefix_rfl) (not_prefix_of_allowed hallowed)

/-- A build begins with the files as they are, and goes through the pages that are asked for. -/
theorem start_quiet (b : PageBuilder) (w : FileTree) (names : Option (List String)) :
    ∃ log, (∃ f, b.start w .quiet names = (Build.stop { tree := w, log := log } (.file f), [])) ∨
      ∃ available remark, discover w b.pagesDir = .ok (available, remark) ∧
        b.start w .quiet names = (b.prepare { tree := w, log := log }, select available names) := by
  unfold start
  cases hd : discover w b.pagesDir with
  | error f => exact ⟨[], .inl ⟨f, rfl⟩⟩
  | ok r =>
    obtain ⟨available, remark⟩ := r
    obtain ⟨told, htold⟩ := Build.foldl_say_quiet { tree := w } 20 id remark.toList
    obtain ⟨warned, hwarned⟩ := Build.foldl_say_quiet { tree := w, log := told } 30
      ("Page not found: " ++ ·) (missing available (names.getD []))
    refine ⟨warned, .inr ⟨available, remark, rfl, ?_⟩⟩
    dsimp only [id] at htold ⊢
    rw [htold, hwarned]

/-- A build that was refused for the sake of the sources has changed nothing. -/
theorem tree_of_holdsSource (b : PageBuilder) (w : FileTree) (names : Option (List String))
    {out source : Path} {label : String}
    (h : (b.build w .quiet time names).fault? = some (.holdsSource out label source)) :
    (b.build w .quiet time names).tree = w := by
  have ended : ∀ (pages : List (String × Path)) (build : Build),
      (pages.foldl (b.buildPage .quiet time) build).fault? = some (.holdsSource out label source) →
      pages.foldl (b.buildPage .quiet time) build = build := by
    intro pages
    induction pages with
    | nil => exact fun _ _ => rfl
    | cons page rest ih =>
      intro build h
      rw [List.foldl_cons] at h ⊢
      have hrest := ih _ h
      rw [hrest] at h ⊢
      exact buildPage_of_holdsSource h
  unfold build at h ⊢
  dsimp only at h ⊢
  have hall := ended _ _ h
  rw [hall] at h ⊢
  obtain ⟨log, ⟨f, hstart⟩ | ⟨available, remark, -, hstart⟩⟩ := start_quiet b w names
  · rw [hstart] at h
    cases h
  · rw [hstart] at h ⊢
    have hp : Prepared b _ (b.prepare { tree := w, log := log }) := prepared_prepare rfl
    revert h hp
    dsimp only
    generalize b.prepare { tree := w, log := log } = after
    intro h hp
    cases hp with
    | refused => rfl
    | made | emptied =>
      rw [Build.carryOn] at h
      obtain ⟨f, -, hf⟩ := Option.map_eq_some_iff.1 h
      cases hf
    | stuck => cases h

/-- **Building with an emptied output directory keeps the pages.**

· If there is an output directory as it is written, or it is another one than the pages directory, then
whatever a build ends in, all files directly in the pages directory are afterwards what they were before.

· A build that is refused since emptying would remove sources has changed nothing. -/
theorem build_keeps_pages (b : PageBuilder) (w : FileTree) (sound : w.IsSound) (time : Nat)
    (names : Option (List String)) (asked : b.emptyOutDir = true) :
    (w.hasEntry b.outDir ≠ .ok false ∨ b.outDir.locate w.here ≠ b.pagesDir.locate w.here →
      ∀ name f, w.at? (b.pagesDir.locate w.here ++ [name]) = some (.file f) →
        (b.build w .quiet time names).tree.at? (b.pagesDir.locate w.here ++ [name]) = some (.file f)) ∧
    ∀ out label source, (b.build w .quiet time names).fault? = some (.holdsSource out label source) →
      (b.build w .quiet time names).tree = w := by
  refine ⟨fun hout => ?_, fun out label source => tree_of_holdsSource b w names⟩
  suffices hkeeps : KeepsFiles (b.pagesDir.locate w.here) w (b.build w .quiet time names).tree from
    hkeeps.files
  unfold build
  dsimp only
  obtain ⟨log, ⟨f, hstart⟩ | ⟨available, remark, hdiscover, hstart⟩⟩ := start_quiet b w names
  · rw [hstart]
    exact .refl ..
  · rw [hstart]
    have hkept : KeepsFiles _ _ (b.prepare { tree := w, log := log }).tree := keepsFiles_prepare rfl
    by_cases same : b.outDir.locate w.here = b.pagesDir.locate w.here
    · have there := hout.resolve_right fun h => h same
      have hended : (b.prepare { tree := w, log := log }).fault?.isSome = true :=
        fault_of_same rfl asked there same
      rw [foldl_of_ended hended]
      exact hkept
    · refine hkept.trans (hkept.here ▸ keepsFiles_foldl (fun page hpage => ?_) (hkept.here.symm ▸ same))
      rw [discover_eq_ok hdiscover, select_index] at hpage
      obtain ⟨n, hn, rfl⟩ := List.mem_map.1 hpage
      simpa using isName_of_mem_files sound (mem_of_mem_chosen hn)

/-- A page in `/src/pages`. -/
def pageTree (markup : String) : FileTree :=
  { FileTree.ofEntries
      [(["src"], .directory), (["src", "pages"], .directory),
        (["src", "pages", "a.html"], .file ⟨markup.toUTF8.toList, 1, 0⟩), (["dist"], .directory),
        (["dist", "old"], .file ⟨[], 1, 1⟩)] with
    fresh := 2 }

/-- Builds the pages in `/src/pages`. -/
def pageBuilder (outDir : String) : PageBuilder where
  expander := { fragments := { root := Path.ofString "/src" } }
  pagesDir := Path.ofString "/src/pages"
  outDir := Path.ofString outDir

theorem sample_page_kept : ((pageTree "<P>x</P>").IsSound ∧
      (pageTree "<P>x</P>").hasEntry (pageBuilder "/dist").outDir ≠ .ok false) ∧
    ∀ name f, (pageTree "<P>x</P>").at? (["src", "pages"] ++ [name]) = some (.file f) →
      ((pageBuilder "/dist").build (pageTree "<P>x</P>") .quiet 7 none).tree.at?
        (["src", "pages"] ++ [name]) = some (.file f) := by
  have sound : (pageTree "<P>x</P>").IsSound :=
    FileTree.isSound_of_entries (by decide) (by decide)
  have there : (pageTree "<P>x</P>").hasEntry (pageBuilder "/dist").outDir ≠ .ok false := by
    intro h
    have := congrArg Except.toOption h
    revert this
    decide +kernel
  exact ⟨⟨sound, there⟩, (build_keeps_pages (pageBuilder "/dist") _ sound 7 none rfl).1 (.inl there)⟩

/-- **An output directory behind a missing one is not checked.**  It is made with the way to it, which leads
to the pages here. -/
theorem missing_way_leads_to_pages :
    (pageTree "<P>x</P>").at? ["src", "pages", "a.html"] =
        some (.file ⟨"<P>x</P>".toUTF8.toList, 1, 0⟩) ∧
      ((pageBuilder "/nope/../src/pages").build (pageTree "<P>x</P>") .quiet 7 none).tree.at?
          ["src", "pages", "a.html"] =
        some (.file ⟨"<p>x</p>".toUTF8.toList, 7, 0⟩) := by
  decide +kernel

end PageBuilder
end PageComposer
