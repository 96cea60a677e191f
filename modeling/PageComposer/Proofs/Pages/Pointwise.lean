/-
# A build as the image of its pages

A build writes for each of its pages what the expansion of that page gives with the files as they were
before (`IsImage`, `build_pointwise`).  What it removes, makes and writes lies in the output directory, so no
page and no fragment outside of it is read any differently while the build goes on:

| step | what it leaves |
| --- | --- |
| empty and make the output directory | the image of no page (`isImage_prepare`) |
| one more page | the image of one more page (`IsImage.buildPage`) |

Pages are built in the order of their names, but of two with one stem the later one takes the place of the
earlier one (`stem_keeps_its_place`).
-/

import PageComposer.Proofs.Expansion.Reads
import PageComposer.Proofs.Pages.Sources

namespace PageComposer
namespace PageBuilder

open FileTree (isBelow)

variable {b : PageBuilder} {w : FileTree} {time : Nat}

/-- The markup that a page expands to with the files of `w`, and the run that gives it. -/
def rendering? (b : PageBuilder) (w : FileTree) (n : String) : Option (String × Run) :=
  match w.readText (b.pagesDir.child n) b.expander.fragments.encoding with
  | .error _ => none
  | .ok cs =>
    let r := b.expander.process w n (String.ofList cs)
    r.1.map (·, r.2)

/-- The paths that the includes of a page, and of all fragments that are loaded for it, lead to. -/
def Asks (b : PageBuilder) (w : FileTree) (n : String) (path : Path) : Prop :=
  ∃ cs, w.readText (b.pagesDir.child n) b.expander.fragments.encoding = .ok cs ∧
    b.expander.Asks w n (String.ofList cs) path

/-- A build that stands at the image of some pages, each expanded with the files of `w`. -/
structure IsImage (b : PageBuilder) (w : FileTree) (pages : List String) (build : Build) : Prop where
  /-- For each page there is a file of its name. -/
  written : ∀ n ∈ pages, ∃ html run f, b.rendering? w n = some (html, run) ∧
    build.tree.at? (b.outDir.locate w.here ++ [n]) = some (.file f) ∧ f.data = b.encoded html
  /-- Nothing else is in the output directory, or everything else is there as before. -/
  others : ∀ loc, isBelow (b.outDir.locate w.here) loc = true →
    (∀ n ∈ pages, loc ≠ b.outDir.locate w.here ++ [n]) →
      build.tree.at? loc = if b.emptyOutDir then none else w.at? loc
  /-- Outside of it there are at most more directories, on the way to it. -/
  outside : w.AgreesOutside (b.outDir.locate w.here) build.tree
  /-- The reports are those of the expansions, in order. -/
  reports : build.reports.reverse.map some = pages.map fun n =>
    (b.rendering? w n).map fun r => { r.2.report with output := some (b.outDir.child n) }

/-! ### Before the first page -/

/-- **The output directory, emptied and made**, is the image of no page. -/
theorem isImage_prepare {build : Build} (hb : build.fault? = none) (hreports : build.reports = [])
    (sound : build.tree.IsSound) (plain : ".." ∉ b.outDir.parts)
    (ok : (b.prepare build).fault? = none) : b.IsImage build.tree [] (b.prepare build) := by
  have hp := prepared_prepare (b := b) hb
  revert hp ok
  generalize b.prepare build = after
  intro ok hp
  cases hp with
  | refused => cases ok
  | stuck => cases ok
  | made missing =>
    have hmade : (build.tree.makeDirectories b.outDir).2 = none := by
      simpa [Build.carryOn] using ok
    have hgrown := FileTree.grown_makeDirectories (w := build.tree) plain
    refine ⟨by simp, fun loc hbelow _ => (hgrown.at?_of_isBelow hbelow).trans ?_,
      ⟨hgrown.here, fun loc _ => hgrown.at? loc⟩, by simp [Build.carryOn, hreports]⟩
    split
    · rename_i hasked
      exact sound.at?_of_missing plain (FileTree.noNull_of_makeDirectories hmade) (missing hasked) hbelow
    · rfl
  | @emptied w asked hallowed hr =>
    have htop : b.outDir.locate build.tree.here ≠ [] := fun h =>
      not_prefix_of_allowed hallowed (h ▸ List.nil_prefix)
    have hhere : w.here = build.tree.here := (congrArg (·.1.here) hr).symm.trans (FileTree.removeTree_here ..)
    have hgone := FileTree.at?_of_removeTree hr htop
    have hgrown := FileTree.grown_makeDirectories (w := w) plain
    have hmade := FileTree.directory_of_makeDirectories (w := w) (p := b.outDir)
      (by simpa [Build.carryOn] using ok)
    rw [hhere] at hgrown hmade
    refine ⟨by simp, fun loc hbelow _ => (hgrown.at?_of_isBelow hbelow).trans ?_,
      ⟨hgrown.here.trans hhere, fun loc hout => ?_⟩, by simp [Build.carryOn, hreports]⟩
    · rw [asked, hgone, if_pos (FileTree.isBelow_iff.1 hbelow).1, if_pos rfl]
    · by_cases hloc : loc = b.outDir.locate build.tree.here
      · -- the directory was there before it was removed
        left
        rw [hloc, FileTree.directory_of_removeTree hr]
        exact hmade
      · have hkept : w.at? loc = build.tree.at? loc := by
          rw [hgone, if_neg fun hp => ?_]
          exact Bool.eq_false_iff.1 hout (FileTree.isBelow_iff.2 ⟨hp, hloc⟩)
        rw [← hkept]
        exact hgrown.at? loc

/-! ### One more page -/

/-- A page does not lie below the output directory. -/
theorem isBelow_page (apart : ¬ b.outDir.locate w.here <+: b.pagesDir.locate w.here) {n : String}
    (hname : IsName n) : isBelow (b.outDir.locate w.here) ((b.pagesDir.child n).locate w.here) = false := by
  rw [Bool.eq_false_iff, Path.locate_child hname.up]
  intro hbelow
  obtain ⟨hp, hne⟩ := FileTree.isBelow_iff.1 hbelow
  rcases List.prefix_concat_iff.1 hp with heq | hp
  · exact hne heq.symm
  · exact apart hp

/-- In the image of some pages, another page is read and expanded as before the build. -/
theorem IsImage.rendering?_eq {pages : List String} {build : Build} (h : b.IsImage w pages build)
    (sound : w.IsSound) (apart : ¬ b.outDir.locate w.here <+: b.pagesDir.locate w.here) {n : String}
    (hn : n ∈ files w b.pagesDir)
    (outside : ∀ path, b.Asks w n path → isBelow (b.outDir.locate w.here) path.parts = false)
    {cs : List Char}
    (hread : build.tree.readText (b.pagesDir.child n) b.expander.fragments.encoding = .ok cs) :
    b.rendering? w n = (b.expander.process build.tree n (String.ofList cs)).1.map
      (·, (b.expander.process build.tree n (String.ofList cs)).2) := by
  obtain ⟨-, -, f, hfile⟩ := file_of_mem_files hn
  have hread := h.outside.readText_of_file hfile (isBelow_page apart (isName_of_mem_files sound hn)) hread
  have hprocess : b.expander.process w n (String.ofList cs) =
      b.expander.process build.tree n (String.ofList cs) := by
    refine Expander.process_eq_of_asks h.outside.here fun path hpath f => ?_
    obtain ⟨_, _, src, _, hresolve⟩ := id hpath
    obtain ⟨loc, rfl, plain⟩ := Fragments.resolve_eq_ofLocation hresolve
    exact (h.outside.openFile_iff sound (fun hup => plain _ hup rfl) (outside _ ⟨cs, hread, hpath⟩)).symm
  rw [rendering?, hread]
  dsimp only
  rw [hprocess]

/-- **The image of some pages becomes that of one more.** -/
theorem IsImage.buildPage {pages : List String} {build : Build} (h : b.IsImage w pages build)
    (sound : w.IsSound) (apart : ¬ b.outDir.locate w.here <+: b.pagesDir.locate w.here) {n : String}
    (hn : n ∈ files w b.pagesDir)
    (outside : ∀ path, b.Asks w n path → isBelow (b.outDir.locate w.here) path.parts = false)
    (ok : (b.buildPage .quiet time build (Path.stemOf n, b.pagesDir.child n)).fault? = none) :
    b.IsImage w (pages ++ [n]) (b.buildPage .quiet time build (Path.stemOf n, b.pagesDir.child n)) := by
  have hname := isName_of_mem_files sound hn
  obtain ⟨-, markup, html, run, hw⟩ := wrote_of_buildPage ok
  obtain ⟨cs, hread, rfl⟩ := hw.read
  have hexpanded := hw.expanded
  rw [Path.name_child] at hexpanded
  have hrendering := h.rendering?_eq sound apart hn outside hread
  rw [hexpanded] at hrendering
  have htarget : b.target (Path.stemOf n, b.pagesDir.child n) = b.outDir.child n := by
    rw [target_eq (by simpa using hname), Path.name_child]
  obtain ⟨w', hwrite, hafter⟩ := hw.written
  rw [htarget] at hwrite hafter
  rw [Build.tree_noteAll_quiet] at hwrite
  have hwritten := FileTree.written_of_write hwrite
  rw [Path.locate_child hname.up, h.outside.here] at hwritten
  have htree : (b.buildPage .quiet time build (Path.stemOf n, b.pagesDir.child n)).tree = w' := by
    rw [hafter]
    rfl
  have hreports : (b.buildPage .quiet time build (Path.stemOf n, b.pagesDir.child n)).reports =
      { run.report with output := some (b.outDir.child n) } :: build.reports := by
    rw [hafter, Build.finish]
    exact congrArg _ (Build.reports_noteAll ..)
  constructor
  · intro m hm
    rw [htree]
    by_cases hmn : m = n
    · obtain ⟨f, hdata, hf⟩ := hwritten.there
      exact ⟨html, run, f, hmn ▸ hrendering, hmn ▸ hf, hdata⟩
    · have hm : m ∈ pages := (List.mem_append.1 hm).resolve_right fun h => hmn (List.mem_singleton.1 h)
      obtain ⟨html', run', f, hm', hf, hdata⟩ := h.written m hm
      refine ⟨html', run', f, hm', ?_, hdata⟩
      rw [hwritten.others _ fun heq => hmn (by simpa using heq), hf]
  · intro loc hbelow hloc
    rw [htree, hwritten.others loc (hloc n (by simp))]
    exact h.others loc hbelow fun m hm => hloc m (by simp [hm])
  · rw [htree]
    refine h.outside.trans ⟨hwritten.here, fun loc hout => .inl (hwritten.others loc fun heq => ?_)⟩
    refine Bool.eq_false_iff.1 hout (FileTree.isBelow_iff.2 ⟨heq ▸ List.prefix_append .., fun heq' => ?_⟩)
    rw [heq'] at heq
    simp at heq
  · rw [hreports, List.reverse_cons, List.map_append, h.reports, List.map_append]
    simp [hrendering]

/-- **Building pages gives their image.** -/
theorem IsImage.foldl (sound : w.IsSound)
    (apart : ¬ b.outDir.locate w.here <+: b.pagesDir.locate w.here) {pages done : List String}
    {build : Build} (h : b.IsImage w done build) (hpages : ∀ n ∈ pages, n ∈ files w b.pagesDir)
    (outside : ∀ n ∈ pages, ∀ path, b.Asks w n path →
      isBelow (b.outDir.locate w.here) path.parts = false)
    (ok : ((pages.map fun n => (Path.stemOf n, b.pagesDir.child n)).foldl (b.buildPage .quiet time)
      build).fault? = none) :
    b.IsImage w (done ++ pages) ((pages.map fun n => (Path.stemOf n, b.pagesDir.child n)).foldl
      (b.buildPage .quiet time) build) := by
  induction pages generalizing done build with
  | nil => simpa using h
  | cons n rest ih =>
    have hstep := h.buildPage sound apart (hpages n (List.mem_cons_self ..))
      (outside n (List.mem_cons_self ..)) (fault?_of_foldl ok)
    have := ih hstep (fun m hm => hpages m (List.mem_cons_of_mem _ hm))
      (fun m hm => outside m (List.mem_cons_of_mem _ hm)) ok
    rwa [List.append_assoc, List.singleton_append] at this

/-! ### The whole build -/

/-- **A build is the pointwise image of expansion.**  Where the output directory is spelled without `..`,
does not hold the pages directory, and no include of the pages leads below it, a build that ends without a
fault

· leaves for each page that is asked for a file of its name, with what the page expands to with the files as
they were; nothing else or nothing new beside them in the output directory; and everything else as it was
(`IsImage`);

· has gone through the pages that are asked for: those of the names that there are pages of, each once, in the
order in which they are first mentioned, or all pages in the order of their names, where `.html.html` takes
the place of `.html`. -/
theorem build_pointwise (b : PageBuilder) (w : FileTree) (sound : w.IsSound) (time : Nat)
    (names : Option (List String)) (plain : ".." ∉ b.outDir.parts)
    (apart : ¬ b.outDir.locate w.here <+: b.pagesDir.locate w.here)
    (outside : ∀ n ∈ chosen (files w b.pagesDir) names, ∀ path, b.Asks w n path →
      isBelow (b.outDir.locate w.here) path.parts = false)
    (ok : (b.build w .quiet time names).fault? = none) :
    b.IsImage w (chosen (files w b.pagesDir) names) (b.build w .quiet time names) ∧
      (∃ available remark, discover w b.pagesDir = .ok (available, remark) ∧
        select available names = (chosen (files w b.pagesDir) names).map fun n =>
          (Path.stemOf n, b.pagesDir.child n)) ∧
      (files w b.pagesDir).Pairwise (· < ·) ∧
      (names = none → chosen (files w b.pagesDir) names = inOrder (files w b.pagesDir)) := by
  have hsorted := sorted_files sound b.pagesDir
  have horder : names = none → chosen (files w b.pagesDir) names = inOrder (files w b.pagesDir) := by
    rintro rfl
    exact chosen_none hsorted fun n hn => (file_of_mem_files hn).2.1
  unfold build at ok ⊢
  dsimp only at ok ⊢
  obtain ⟨log, ⟨f, hstart⟩ | ⟨available, remark, hdiscover, hstart⟩⟩ := start_quiet b w names
  · rw [hstart] at ok
    cases ok
  · have hselect := select_index b.pagesDir (files w b.pagesDir) names
    rw [← discover_eq_ok hdiscover] at hselect
    rw [hstart, hselect] at ok ⊢
    have hprepared : b.IsImage _ [] (b.prepare { tree := w, log := log }) :=
      isImage_prepare rfl rfl sound plain (fault?_of_foldl ok)
    refine ⟨?_, ⟨available, remark, hdiscover, hselect⟩, hsorted, horder⟩
    exact hprepared.foldl sound apart (fun n hn => mem_of_mem_chosen hn) outside ok

/-- Pages in `/src/pages` beside a fragment `/src/f`. -/
def siteTree (pages : List (String × String)) : FileTree :=
  { FileTree.ofEntries <|
      [(["src"], .directory), (["src", "f"], .file ⟨"x".toUTF8.toList, 1, 0⟩),
        (["src", "pages"], .directory)] ++
      pages.map fun p => (["src", "pages", p.1], .file ⟨p.2.toUTF8.toList, 1, 1⟩) with
    fresh := 2 }

/-- One page, which includes the fragment. -/
def sampleSite : FileTree := siteTree [("a.html", "<include src=\"f\"></include>")]

theorem sample_site_built :
    (sampleSite.IsSound ∧ ((pageBuilder "/dist").build sampleSite .quiet 7 none).fault? = none) ∧
    (pageBuilder "/dist").IsImage sampleSite (chosen (files sampleSite (Path.ofString "/src/pages")) none)
      ((pageBuilder "/dist").build sampleSite .quiet 7 none) := by
  have sound : sampleSite.IsSound := FileTree.isSound_of_entries (by decide) (by decide)
  have ok : ((pageBuilder "/dist").build sampleSite .quiet 7 none).fault? = none := by decide +kernel
  refine ⟨⟨sound, ok⟩, (build_pointwise (pageBuilder "/dist") _ sound 7 none (by decide) (by decide) ?_ ok).1⟩
  intro n hn path hpath
  have hpages : chosen (files sampleSite (Path.ofString "/src/pages")) none = ["a.html"] := by
    decide +kernel
  obtain rfl : n = "a.html" := List.mem_singleton.1 (hpages ▸ hn)
  obtain ⟨cs, hread, items, hparse, src, hsrc, hresolve⟩ := hpath
  -- the page, what it includes, and where that is
  have hcs : sampleSite.readText ((pageBuilder "/dist").pagesDir.child "a.html") "utf-8" =
      .ok "<include src=\"f\"></include>".toList := by decide +kernel
  obtain rfl := Except.ok.inj (hread.symm.trans hcs)
  have hsrcs : ((Markup.parse "<include src=\"f\"></include>").toOption.map Content.directives) =
      some ["f"] := by decide +kernel
  rw [String.ofList_toList] at hparse hsrc
  rw [hparse] at hsrcs
  have hloads : ((pageBuilder "/dist").expander.process sampleSite "a.html"
      "<include src=\"f\"></include>").2.loads.flatMap (fun l => Content.directives l.filled.content) = [] := by
    decide +kernel
  obtain rfl : src = "f" := by
    rcases hsrc with hsrc | ⟨l, hl, hsrc⟩
    · rw [Option.some.inj hsrcs] at hsrc
      exact List.mem_singleton.1 hsrc
    · exact absurd hsrc (List.flatMap_eq_nil_iff.1 hloads l hl ▸ List.not_mem_nil)
  have hpath : (pageBuilder "/dist").expander.fragments.resolve sampleSite "f" =
      .ok (Path.ofLocation ["src", "f"]) := by decide +kernel
  obtain rfl := Except.ok.inj (hresolve.symm.trans hpath)
  decide

/-- **A stem keeps its place.**  `.html.html` has the stem of `.html` and is built in its place, before pages
that it comes after. -/
theorem stem_keeps_its_place :
    let site := siteTree [(".html", "A"), (".html-x.html", "B"), (".html.html", "C")]
    ".html-x.html" < ".html.html" ∧
      ((pageBuilder "/dist").build site .quiet 7 none).fault? = none ∧
      ((pageBuilder "/dist").build site .quiet 7 none).reports.reverse.map (·.document) =
        [".html.html", ".html-x.html"] := by
  intro site
  have hnames : ((site.names ["src", "pages"]).filter fun n => n.endsWith ".html").mergeSort
      (fun a b => a ≤ b) = [".html", ".html-x.html", ".html.html"] := by
    have : (site.names ["src", "pages"]).filter (fun n => n.endsWith ".html") =
        [".html", ".html-x.html", ".html.html"] := by decide +kernel
    rw [this]
    exact List.mergeSort_of_pairwise (by decide)
  have hdirectory : site.isDirectory (pageBuilder "/dist").pagesDir = .ok true := by decide +kernel
  have hfind : site.find (pageBuilder "/dist").pagesDir = .ok ["src", "pages"] := by decide +kernel
  have hdiscover : discover site (pageBuilder "/dist").pagesDir =
      .ok ([(".html", (pageBuilder "/dist").pagesDir.child ".html.html"),
        (".html-x", (pageBuilder "/dist").pagesDir.child ".html-x.html")], none) := by
    simp only [discover, hdirectory, hfind, hnames, bind, Except.bind, if_true]
    decide +kernel
  unfold build start
  rw [hdiscover]
  decide +kernel

end PageBuilder
end PageComposer
