/-
# The stages of a build

A build goes through its pages one after the other (`PageBuilder.stages`). Where it ends without a fault,
it has read, expanded and written each, and reports on these expansions (`PageBuilder.wrote_of_mem_stages`).
-/

import PageComposer.Pages.Build

namespace PageComposer

namespace Build

/-- The build with records noted in order. -/
def noteAll (build : Build) (listen : Listener) (rs : List Logging.Record) : Build :=
  rs.foldl (fun build r => build.note listen r) build

theorem reports_noteAll (build : Build) (listen : Listener) (rs : List Logging.Record) :
    (build.noteAll listen rs).reports = build.reports := by
  induction rs generalizing build with
  | nil => rfl
  | cons r rs ih => exact ih (build.note listen r)

/-- The build with a page written, whose files are `w` then. -/
def finish (build : Build) (listen : Listener) (name : String) (target : Path) (report : Report)
    (w : FileTree) : Build :=
  { build with tree := w, reports := { report with output := some target } :: build.reports }.say listen
    20 ("Built page " ++ name)

/-- The build after an attempt at writing a page. -/
def conclude (build : Build) (listen : Listener) (name : String) (target : Path) (report : Report) :
    Except FileFault FileTree → Build
  | .error f => build.stop (.file f)
  | .ok w => build.finish listen name target report w

end Build

/-- An expansion that gives nothing has met a fault. -/
theorem Expander.fault_of_process_none {x : Expander} {w : FileTree} {document markup : String}
    {run : Run} (hp : x.process w document markup = (none, run)) : ∃ f, run.fault? = some f := by
  unfold process processBy at hp
  dsimp only at hp
  split at hp
  · obtain rfl := (Prod.mk.inj hp).2
    exact ⟨_, rfl⟩
  · split at hp
    · rename_i ho
      obtain rfl := (Prod.mk.inj hp).2
      exact Option.isSome_iff_exists.1 ho
    · cases hp

namespace PageBuilder

/-- A text in the encoding of pages. -/
def encoded (b : PageBuilder) (html : String) : List UInt8 :=
  ((Text.Encoding.ofName? b.expander.fragments.encoding).map fun e => Text.encode e html).getD []

/-- Where a page is written. -/
def target (b : PageBuilder) (page : String × Path) : Path := b.outDir.join (Path.ofString page.2.name)

/-- What building a page did: it was read, expanded without a fault and written, in a build where `before`
stands before and `after` stands after. -/
structure Wrote (b : PageBuilder) (listen : Listener) (time : Nat) (before after : Build)
    (page : String × Path) (markup html : String) (run : Run) : Prop where
  read : ∃ cs, before.tree.readText page.2 b.expander.fragments.encoding = .ok cs ∧
    markup = String.ofList cs
  expanded : b.expander.process before.tree page.2.name markup = (some html, run)
  written : ∃ w, (before.noteAll listen run.log.reverse).tree.write (b.target page) (b.encoded html)
      time = .ok w ∧
    after = (before.noteAll listen run.log.reverse).finish listen page.1 (b.target page) run.report w

variable {b : PageBuilder} {listen : Listener} {time : Nat}

/-- **A page that does not end the build has been written.** -/
theorem wrote_of_buildPage {build : Build} {page : String × Path}
    (ok : (b.buildPage listen time build page).fault? = none) :
    build.fault? = none ∧ ∃ markup html run,
      b.Wrote listen time build (b.buildPage listen time build page) page markup html run := by
  have hbuild : build.fault? = none := by
    cases hf : build.fault? with
    | none => rfl
    | some f => simp [buildPage, hf] at ok
  refine ⟨hbuild, ?_⟩
  have hunder : ¬Text.holds b.expander.fragments.encoding '\x00' = true := fun henc => by
    simp [buildPage, hbuild, henc, Build.stop] at ok
  cases hread : build.tree.readText page.2 b.expander.fragments.encoding with
  | error f => simp [buildPage, hbuild, hunder, hread, Build.stop] at ok
  | ok cs =>
    have hproc : ∃ html run, b.expander.process build.tree page.2.name (String.ofList cs) =
        (some html, run) := by
      rcases hp : b.expander.process build.tree page.2.name (String.ofList cs) with ⟨_ | html, run⟩
      · obtain ⟨f, hf⟩ := Expander.fault_of_process_none hp
        simp [buildPage, hbuild, hunder, hread, hp, hf, Build.stop] at ok
      · exact ⟨html, run, rfl⟩
    obtain ⟨html, run, hp⟩ := hproc
    have hout : b.buildPage listen time build page =
        (build.noteAll listen run.log.reverse).conclude listen page.1 (b.target page) run.report
          ((build.noteAll listen run.log.reverse).tree.write (b.target page) (b.encoded html) time) := by
      simp only [buildPage, hbuild, hunder, hread, hp, Option.isSome_none]
      rfl
    rw [hout] at ok ⊢
    cases hw : (build.noteAll listen run.log.reverse).tree.write (b.target page) (b.encoded html) time with
    | error f =>
      rw [hw] at ok
      cases ok
    | ok w => exact ⟨_, html, run, ⟨cs, hread, rfl⟩, hp, w, hw, rfl⟩

/-- The pages that a build goes through, each with where the build stands before it. -/
def stages (b : PageBuilder) (listen : Listener) (time : Nat) :
    Build → List (String × Path) → List (Build × (String × Path))
  | _, [] => []
  | build, page :: rest =>
    (build, page) :: stages b listen time (b.buildPage listen time build page) rest

theorem fault?_of_foldl {build : Build} {pages : List (String × Path)}
    (ok : (pages.foldl (b.buildPage listen time) build).fault? = none) : build.fault? = none := by
  induction pages generalizing build with
  | nil => exact ok
  | cons page rest ih => exact (wrote_of_buildPage (ih ok)).1

/-- **A build that ends without a fault has written every page.**  Its reports are those of the pages. -/
theorem wrote_of_mem_stages {build : Build} {pages : List (String × Path)}
    (ok : (pages.foldl (b.buildPage listen time) build).fault? = none) :
    build.reports <:+ (pages.foldl (b.buildPage listen time) build).reports ∧
      ∀ s ∈ b.stages listen time build pages, ∃ markup html run,
        b.Wrote listen time s.1 (b.buildPage listen time s.1 s.2) s.2 markup html run ∧
          { run.report with output := some (b.target s.2) } ∈
            (pages.foldl (b.buildPage listen time) build).reports := by
  induction pages generalizing build with
  | nil => exact ⟨List.suffix_rfl, by simp [stages]⟩
  | cons page rest ih =>
    obtain ⟨hsuff, hrest⟩ := ih ok
    obtain ⟨_, markup, html, run, hw⟩ := wrote_of_buildPage (fault?_of_foldl ok)
    obtain ⟨w, _, hafter⟩ := hw.written
    have hreports : (b.buildPage listen time build page).reports =
        { run.report with output := some (b.target page) } :: build.reports := by
      rw [hafter, Build.finish]
      exact congrArg _ (Build.reports_noteAll ..)
    refine ⟨(hreports ▸ List.suffix_cons ..).trans hsuff, fun s hs => ?_⟩
    rcases List.mem_cons.1 hs with rfl | hs
    · exact ⟨markup, html, run, hw, hsuff.subset (by simp [hreports])⟩
    · exact hrest s hs

end PageBuilder
end PageComposer
