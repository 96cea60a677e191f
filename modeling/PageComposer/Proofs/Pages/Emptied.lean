/-
# What emptying the output directory removes

Emptying is refused where the output directory is or holds the pages directory or the root of the fragments
(`apart_of_allowed`), and removes nothing but what lies below it (`file_of_prepare`).  So pages stay, and of the
fragments that pages ask for only those can go that lie below the output directory.  A reference leads there in
two ways (`emptying_keeps_sources`):

| the reference | then |
| --- | --- |
| leaves the root, as it is absolute or goes a step up | it can lead anywhere (`fragment_in_output_removed`) |
| stays in the root (`Fragments.Stays`) | the output directory lies in the root |
-/

import PageComposer.Proofs.Pages.Pointwise

namespace PageComposer

/-- A reference that stays in the root of the fragments: it is relative and goes no step up. -/
def Fragments.Stays (src : String) : Prop :=
  (Path.ofString src).isAbsolute = false ∧ ".." ∉ (Path.ofString src).parts

/-- A reference that stays in the root leads to a place in it. -/
theorem Fragments.root_isPrefix_of_stays {fs : Fragments} {w : FileTree} {src : String} {path : Path}
    (h : fs.resolve w src = .ok path) (stays : Stays src) : fs.root.locate w.here <+: path.parts := by
  unfold resolve at h
  dsimp only at h
  split at h
  · cases h
  · obtain rfl := Except.ok.inj h
    refine ⟨(Path.ofString src).parts, ?_⟩
    rw [Path.join, if_neg (by simp [stays.1]), Path.resolve, Path.ofLocation]
    dsimp only [Path.locate, Path.isAbsolute]
    rw [List.foldl_append, Path.foldl_step stays.2]
    rfl

namespace PageBuilder

open FileTree (isBelow)

variable {b : PageBuilder}

/-- What may be emptied holds neither the pages nor the root of the fragments. -/
theorem apart_of_allowed {w : FileTree} (h : b.refusal? w = none) :
    ¬ b.outDir.locate w.here <+: b.pagesDir.locate w.here ∧
      ¬ b.outDir.locate w.here <+: b.expander.fragments.root.locate w.here := by
  refine ⟨not_prefix_of_allowed h, fun hp => ?_⟩
  have hp : (b.outDir.resolve w.here).parts.isPrefixOf
      (b.expander.fragments.root.resolve w.here).parts = true := List.isPrefixOf_iff_prefix.2 hp
  -- whatever is asked of the pages directory first, the root would be complained about
  unfold refusal? at h
  have hroot := List.findSome?_eq_none_iff.1 h ("root", b.expander.fragments.root) (by simp)
  simp only [hp, if_true] at hroot
  split at hroot <;> cases hroot

/-- **Preparing keeps a file, unless it lies below an output directory that may be emptied.** -/
theorem file_of_prepare {build : Build} (hb : build.fault? = none) {loc : Location} {f : File}
    (hf : build.tree.at? loc = some (.file f)) :
    (b.prepare build).tree.at? loc = some (.file f) ∨
      b.emptyOutDir = true ∧ b.refusal? build.tree = none ∧
        isBelow (b.outDir.locate build.tree.here) loc = true := by
  have made {w : FileTree} (hw : w.at? loc = some (.file f)) :
      (w.makeDirectories b.outDir).1.at? loc = some (.file f) :=
    (w.grown_of_makeDirectoriesFrom b.outDir b.outDir.parts.length).1.at?_of_some hw
  cases hbelow : isBelow (b.outDir.locate build.tree.here) loc with
  | false =>
    have removed := FileTree.file_of_removeTree hf hbelow
    left
    have hp := prepared_prepare (b := b) hb
    revert hp
    generalize b.prepare build = after
    intro hp
    cases hp with
    | refused => exact hf
    | made => exact made hf
    | stuck _ _ hr => exact (hr ▸ removed :)
    | emptied _ _ hr => exact made (hr ▸ removed :)
  | true =>
    have hp := prepared_prepare (b := b) hb
    revert hp
    generalize b.prepare build = after
    intro hp
    cases hp with
    | refused => exact .inl hf
    | made => exact .inl (made hf)
    | stuck asked allowed | emptied asked allowed => exact .inr ⟨asked, allowed, rfl⟩

/-- **Emptying the output directory keeps the sources outside of it.**

· A file that is not there any more before the first page lay below the output directory, which was to be
emptied and is or holds neither the pages directory nor the root of the fragments.

· All files directly in the pages directory are still there.

· If a file is gone that a page asks for, through whatever chain of fragments, it lay below the output
directory.  Then each reference that leads to it leaves the root, or the output directory lies in the root. -/
theorem emptying_keeps_sources (b : PageBuilder) (w : FileTree) (names : Option (List String)) :
    let out := b.outDir.locate w.here
    let pages := b.pagesDir.locate w.here
    let root := b.expander.fragments.root.locate w.here
    let after := (b.start w .quiet names).1.tree
    (∀ loc f, w.at? loc = some (.file f) → after.at? loc ≠ some (.file f) →
      b.emptyOutDir = true ∧ ¬ out <+: pages ∧ ¬ out <+: root ∧ isBelow out loc = true) ∧
    (∀ n f, w.at? (pages ++ [n]) = some (.file f) → after.at? (pages ++ [n]) = some (.file f)) ∧
    ∀ n path f, b.Asks w n path → w.at? path.parts = some (.file f) →
      after.at? path.parts ≠ some (.file f) →
        isBelow out path.parts = true ∧
          ∀ src, b.expander.fragments.resolve w src = .ok path → Fragments.Stays src →
            root <+: out ∧ root ≠ out := by
  intro out pages root after
  have gone (loc f) (hf : w.at? loc = some (.file f)) (hafter : after.at? loc ≠ some (.file f)) :
      b.emptyOutDir = true ∧ ¬ out <+: pages ∧ ¬ out <+: root ∧ isBelow out loc = true := by
    obtain ⟨log, ⟨_, hstart⟩ | ⟨_, _, -, hstart⟩⟩ := start_quiet b w names
    · exact absurd (by rw [show after = w by simp only [after, hstart]; rfl]; exact hf) hafter
    · have hprepare : after = (b.prepare { tree := w, log := log }).tree := by simp only [after, hstart]
      have hb : ({ tree := w, log := log } : Build).fault? = none := rfl
      rcases file_of_prepare (b := b) hb hf with h | ⟨asked, hallowed, hbelow⟩
      · exact absurd (hprepare ▸ h) hafter
      · have hapart := apart_of_allowed hallowed
        exact ⟨asked, hapart.1, hapart.2, hbelow⟩
  refine ⟨gone, fun n f hf => ?_, fun n path f _ hf hafter => ?_⟩
  · by_contra hafter
    obtain ⟨-, hpages, -, hbelow⟩ := gone _ f hf hafter
    obtain ⟨hp, hne⟩ := FileTree.isBelow_iff.1 hbelow
    -- what holds a page and is not that page holds the directory of the pages
    rcases List.prefix_concat_iff.1 hp with heq | hp
    · exact hne heq.symm
    · exact hpages hp
  · obtain ⟨-, -, hroot, hbelow⟩ := gone _ f hf hafter
    refine ⟨hbelow, fun src hresolve stays => ?_⟩
    have hout := (FileTree.isBelow_iff.1 hbelow).1
    -- both directories are on the way to the file
    rcases List.prefix_or_prefix_of_prefix hout (Fragments.root_isPrefix_of_stays hresolve stays) with h | h
    · exact absurd h hroot
    · exact ⟨h, fun heq => hroot (heq ▸ List.prefix_rfl)⟩

/-- A page that includes `src`, a fragment beside the pages, and one where the results go. -/
def sharedTree (src : String) : FileTree :=
  FileTree.ofEntries
    [(["src"], .directory), (["src", "f"], .file ⟨"x".toUTF8.toList, 1, 0⟩),
      (["src", "pages"], .directory),
      (["src", "pages", "a.html"], .file ⟨("<include src=" ++ src ++ "></include>").toUTF8.toList, 1, 1⟩),
      (["dist"], .directory), (["dist", "f"], .file ⟨"x".toUTF8.toList, 1, 2⟩)]

/-- The fragment beside the pages is kept, what was where the results go is not. -/
theorem shared_fragment_kept :
    (pageBuilder "/dist").Asks (sharedTree "f") "a.html" (Path.ofLocation ["src", "f"]) ∧
      (sharedTree "f").at? ["src", "f"] = some (.file ⟨"x".toUTF8.toList, 1, 0⟩) ∧
      ((pageBuilder "/dist").start (sharedTree "f") .quiet none).1.tree.at? ["src", "f"] =
        some (.file ⟨"x".toUTF8.toList, 1, 0⟩) ∧
      ((pageBuilder "/dist").start (sharedTree "f") .quiet none).1.tree.at? ["dist", "f"] = none := by
  have hasks : (pageBuilder "/dist").Asks (sharedTree "f") "a.html" (Path.ofLocation ["src", "f"]) := by
    have hread : (sharedTree "f").readText ((pageBuilder "/dist").pagesDir.child "a.html") "utf-8" =
        .ok "<include src=f></include>".toList := by decide +kernel
    refine ⟨_, hread, ?_⟩
    cases hparse : Markup.parse "<include src=f></include>" with
    | error f =>
      have : (Markup.parse "<include src=f></include>").toOption.isSome = true := by decide +kernel
      rw [hparse] at this
      cases this
    | ok items =>
      have hsrcs : (Markup.parse "<include src=f></include>").toOption.map Content.directives =
          some ["f"] := by decide +kernel
      rw [hparse] at hsrcs
      refine ⟨items, by rw [String.ofList_toList, hparse], "f", .inl ?_, by decide +kernel⟩
      rw [show Content.directives items = ["f"] from Option.some.inj hsrcs]
      exact List.mem_singleton.2 rfl
  refine ⟨hasks, rfl, ?_, by decide +kernel⟩
  by_contra hgone
  have hbelow := ((emptying_keeps_sources (pageBuilder "/dist") (sharedTree "f") none).2.2
    "a.html" _ _ hasks rfl hgone).1
  exact absurd hbelow (by decide)

/-- **A fragment where the results go is removed, though a page includes it.**  Its reference leaves the root,
and the output directory may be emptied, as it holds neither the pages nor the root. -/
theorem fragment_in_output_removed :
    (pageBuilder "/dist").refusal? (sharedTree "../dist/f") = none ∧
      (((pageBuilder "/dist").rendering? (sharedTree "../dist/f") "a.html").map fun r =>
        (r.1, r.2.loads.map (·.path))) = some ("x", [Path.ofLocation ["dist", "f"]]) ∧
      (sharedTree "../dist/f").at? ["dist", "f"] = some (.file ⟨"x".toUTF8.toList, 1, 2⟩) ∧
      ((pageBuilder "/dist").start (sharedTree "../dist/f") .quiet none).1.fault? = none ∧
      ((pageBuilder "/dist").start (sharedTree "../dist/f") .quiet none).1.tree.at? ["dist", "f"] = none := by
  decide +kernel

end PageBuilder
end PageComposer
