/-
# A strict build that succeeds

`build --strict` returns 0 only where no page has been reported with an error. So every page that it wrote
is the rendering of a document in which no include with a valid reference is left.
-/

import PageComposer.Proofs.CommandLine.Returns
import PageComposer.Proofs.Expansion.Complete
import PageComposer.Proofs.Pages.Stages

namespace PageComposer

namespace CommandLine
namespace Action

/-- Building pages returns their reports, if no fault ends it, and leaves the files as built. -/
theorem returns_runBuild {b : PageBuilder} {names : Option (List String)} {work work' : Work}
    {reports : List Report} (h : Returns (runBuild b names) work reports work') :
    (b.build work.tree work.logger.listener work.time names).fault? = none ∧
      reports = (b.build work.tree work.logger.listener work.time names).reports.reverse ∧
      work'.tree = (b.build work.tree work.logger.listener work.time names).tree := by
  obtain ⟨_, _, hget, h⟩ := returns_bind.1 h
  obtain ⟨rfl, rfl⟩ := returns_get.1 hget
  obtain ⟨_, _, hset, h⟩ := returns_bind.1 h
  obtain rfl := returns_set.1 hset
  split at h
  · exact absurd h not_returns_throw
  · rename_i hf
    obtain ⟨rfl, rfl⟩ := returns_pure.1 h
    exact ⟨hf, rfl, rfl⟩

/-- A strict build that returns 0 has ended without a fault, and no report tells of an error. -/
theorem strict_of_returns {a : Arguments} {work work' : Work} (hstrict : a.has "--strict" = true)
    (h : Returns (build a) work 0 work') :
    ∃ b start, Returns (builder a) work b start ∧
      (b.build start.tree start.logger.listener start.time (pageNames a)).fault? = none ∧
      work'.tree = (b.build start.tree start.logger.listener start.time (pageNames a)).tree ∧
      ∀ r ∈ (b.build start.tree start.logger.listener start.time (pageNames a)).reports,
        r.errors = [] := by
  obtain ⟨b, start, hb, h⟩ := returns_bind.1 h
  obtain ⟨reports, built, hbuild, h⟩ := returns_bind.1 h
  obtain ⟨_, _, hget, h⟩ := returns_bind.1 h
  obtain ⟨rfl, rfl⟩ := returns_get.1 hget
  obtain ⟨_, printed, hprint, h⟩ := returns_bind.1 h
  obtain ⟨hcode, rfl⟩ := returns_pure.1 h
  obtain ⟨hfault, rfl, htree⟩ := returns_runBuild hbuild
  refine ⟨b, start, hb, hfault, (tree_of_returns_printJson hprint).trans htree, fun r hr => ?_⟩
  -- the exit code tells that no report has errors
  rw [hstrict, Bool.and_true] at hcode
  split at hcode
  · cases hcode
  · rename_i hnone
    simp only [List.any_eq_true, List.mem_reverse, not_exists, not_and] at hnone
    simpa using hnone r hr

/-- The pages that a build from `start` goes through, each with where the build stands before it. -/
def stagesOf (b : PageBuilder) (start : Work) (a : Arguments) : List (Build × (String × Path)) :=
  let begun := b.start start.tree start.logger.listener (pageNames a)
  b.stages start.logger.listener start.time begun.1 begun.2

end Action

/-- **A clean report means a complete result.**

· An expansion of any document in which nothing has been dealt with, and of any markup, is complete if its
report tells of no errors.

· Each page that a strict build wrote is complete if the build returned 0. -/
theorem clean_report_complete :
    (∀ (x : Expander) (w : FileTree) (stack : List Path) (run : Run) (items : List Content),
      (∀ h ∈ Content.headsAll items, h.settled = false) →
      (x.expand w stack run items).2.isOver = false →
      (x.expand w stack run items).2.report.errors = [] →
      Completed items (x.expand w stack run items).1 (x.expand w stack run items).2.report) ∧
    (∀ (x : Expander) (w : FileTree) (document markup html : String) (run : Run),
      x.process w document markup = (some html, run) → run.report.errors = [] →
      ∃ items tree, Markup.parse markup = .ok items ∧ html = Markup.render tree ∧
        x.expand w [] { report := { document := document } } items = (tree, run) ∧
        Completed items tree run.report) ∧
    (∀ (args : List String) (a : Arguments) (work work' : Work),
      request args = .run .build a → a.has "--strict" = true → run work args = (.ok 0, work') →
      ∃ b start, Action.Returns (Action.builder a) work b start ∧
        work'.tree = (b.build start.tree start.logger.listener start.time (Action.pageNames a)).tree ∧
        ∀ s ∈ Action.stagesOf b start a, ∃ markup html run items tree,
          b.Wrote start.logger.listener start.time s.1
            (b.buildPage start.logger.listener start.time s.1 s.2) s.2 markup html run ∧
          Markup.parse markup = .ok items ∧ html = Markup.render tree ∧
          b.expander.expand s.1.tree [] { report := { document := s.2.2.name } } items = (tree, run) ∧
          ∀ h ∈ Content.headsAll tree, h.source? = none) := by
  refine ⟨fun x w stack run items => Expander.completed_expand stack run items,
    fun x w document markup html run => Expander.completed_process, ?_⟩
  intro args a work work' hrequest hstrict hrun
  have hcommand : Action.Returns (Action.command a .build) work 0 work' := by
    unfold run Action.answer at hrun
    rw [hrequest] at hrun
    exact hrun
  obtain ⟨b, start, hb, hfault, htree, herrors⟩ :=
    Action.strict_of_returns hstrict (Action.returns_of_reporting hcommand (by decide))
  refine ⟨b, start, hb, htree, fun s hs => ?_⟩
  obtain ⟨markup, html, run, hwrote, hreport⟩ := (PageBuilder.wrote_of_mem_stages hfault).2 s hs
  have herr := herrors { run.report with output := some (b.target s.2) } hreport
  obtain ⟨items, tree, hp, hhtml, hx, hc⟩ := Expander.completed_process hwrote.expanded herr
  exact ⟨markup, html, run, items, tree, hwrote, hp, hhtml, hx, hc.sources⟩

/-- The project of the example. -/
def sampleWork : Work := { tree := Expander.sampleFiles, around := {} }

/-- What `build --strict` says. -/
def sampleArguments : Arguments := { flags := [("--strict", .nothing)] }

/-- The example is complete, and a strict build of it writes its page. -/
theorem sample_complete :
    Completed Expander.sampleDocument Expander.sampleExpanded
      (Expander.sampleExpander.expand Expander.sampleFiles [] {} Expander.sampleDocument).2.report ∧
    (∃ items tree run, Expander.sampleExpander.process Expander.sampleFiles "a.html"
      Expander.sampleMarkup = (some "<b>hi</b>", run) ∧ Completed items tree run.report) ∧
    ∃ work', run sampleWork ["build", "--strict"] = (.ok 0, work') ∧
      work'.tree.at? ["dist", "a.html"] = some (.file ⟨"<b>hi</b>".toUTF8.toList, 0, 2⟩) ∧
      ∃ b start, Action.Returns (Action.builder sampleArguments) sampleWork b start ∧
        ∀ s ∈ Action.stagesOf b start sampleArguments, ∃ items tree run,
          b.expander.expand s.1.tree [] { report := { document := s.2.2.name } } items = (tree, run) ∧
          ∀ h ∈ Content.headsAll tree, h.source? = none := by
  obtain ⟨hexpand, hprocess, hbuild⟩ := clean_report_complete
  refine ⟨?_, ?_, ?_⟩
  · have h := hexpand Expander.sampleExpander Expander.sampleFiles [] {} Expander.sampleDocument
      (by decide) Expander.expand_sample.2 (by decide +kernel)
    rwa [Expander.expand_sample.1] at h
  · have hrun : Expander.sampleExpander.process Expander.sampleFiles "a.html" Expander.sampleMarkup =
        (some "<b>hi</b>", _) := Prod.ext (by decide +kernel) rfl
    obtain ⟨items, tree, _, _, _, hc⟩ := hprocess _ _ _ _ _ _ hrun (by decide +kernel)
    exact ⟨items, tree, _, hrun, hc⟩
  · have hcode : (run sampleWork ["build", "--strict"]).1 = .ok 0 := by decide +kernel
    have hpage : (run sampleWork ["build", "--strict"]).2.tree.at? ["dist", "a.html"] =
        some (.file ⟨"<b>hi</b>".toUTF8.toList, 0, 2⟩) := by decide +kernel
    have hrun : run sampleWork ["build", "--strict"] =
        (.ok 0, (run sampleWork ["build", "--strict"]).2) := Prod.ext hcode rfl
    obtain ⟨b, start, hb, _, hstages⟩ := hbuild ["build", "--strict"] sampleArguments sampleWork _
      (by decide +kernel) (by decide) hrun
    refine ⟨_, hrun, hpage, b, start, hb, fun s hs => ?_⟩
    obtain ⟨_, _, run, items, tree, _, _, _, hx, hsources⟩ := hstages s hs
    exact ⟨items, tree, run, hx, hsources⟩

end CommandLine
end PageComposer
