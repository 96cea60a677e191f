/-
# What an expansion reads

An expansion depends on the files through the references that it follows: those of the document and of the
fragments that it loads.  Where these lead to the same texts in two trees of files, and to none in the one
where to none in the other, it does the same (`expand_eq_of_readsAlike`).
-/

import PageComposer.Proofs.Expansion.Accounting
import PageComposer.Proofs.Expansion.Simulation
import PageComposer.Proofs.Files.Agreement

namespace PageComposer

/-- A reference leads to one path in two trees of files, where the same text is in both or none can be
read. -/
structure Fragments.ReadsAlike (fs : Fragments) (w w' : FileTree) (src : String) : Prop where
  resolve : fs.resolve w src = fs.resolve w' src
  readPath : ∀ path, fs.resolve w src = .ok path →
    fs.readPath w path = fs.readPath w' path ∨
      ∃ reason reason', fs.readPath w path = .error (.unreadable path reason) ∧
        fs.readPath w' path = .error (.unreadable path reason')

/-- A reference leads to the same where the same files can be opened at its path. -/
theorem Fragments.readsAlike_of_openFile {fs : Fragments} {w w' : FileTree} {src : String}
    (hresolve : fs.resolve w src = fs.resolve w' src)
    (hopen : ∀ path, fs.resolve w src = .ok path →
      ∀ f, w.openFile path = .ok f ↔ w'.openFile path = .ok f) : fs.ReadsAlike w w' src where
  resolve := hresolve
  readPath path hp := by
    unfold readPath
    split
    · exact .inl rfl
    · rcases FileTree.readText_congr (hopen path hp) fs.encoding with h | ⟨e, e', he, he'⟩
      · rw [h]
        exact .inl rfl
      · rw [he, he']
        exact .inr ⟨_, _, rfl, rfl⟩

namespace Run

/-- The references in all fragments that a run has loaded have a property. -/
def LoadsRefer (p : String → Prop) (run : Run) : Prop :=
  ∀ l ∈ run.loads, Content.Refers p l.filled.content

theorem LoadsRefer.of_extends {p : String → Prop} {run run' : Run} (h : run.Extends run')
    (hg : LoadsRefer p run') : LoadsRefer p run := fun l hl => hg l (h.loads.subset hl)

end Run

namespace Expander

variable {x : Expander} {w w' : FileTree} {stack : List Path} {src : String} {slots : SlotMap} {run : Run}
  {fill : SlotMap → List Content → Filled} {descend : Descent w stack} {descend' : Descent w' stack}

/-! ### Two trees of files -/

/-- Attempts at a reference that leads to the same are the same, if what they enter is. -/
theorem attempt_eq_of_readsAlike (alike : x.fragments.ReadsAlike w w' src)
    (enters : ∀ path cs items, run.isOver = false → x.Admits w stack src path →
      x.fragments.readPath w path = .ok cs →
      Markup.parse (Load.source ⟨stack, src, path, slots, String.ofList cs⟩) = .ok items →
      ∀ hfile hfile' hnew,
        descend path hfile hnew
            ((run.load ⟨stack, src, path, slots, String.ofList cs⟩).resolved (fill slots items).resolved)
            (fill slots items).content =
          descend' path hfile' hnew
            ((run.load ⟨stack, src, path, slots, String.ofList cs⟩).resolved (fill slots items).resolved)
            (fill slots items).content) :
    x.attempt w fill stack descend src slots run = x.attempt w' fill stack descend' src slots run := by
  cases ho : run.isOver with
  | true => simp only [attempt, ho, if_true]
  | false =>
    have h := x.attempted w fill stack descend src slots run
    revert h
    generalize x.attempt w fill stack descend src slots run = r
    intro h
    obtain ⟨o, run'⟩ := r
    -- what the attempt does with `w` it can do with `w'`
    suffices h' : Attempted x w' fill stack descend' src slots run o run' from (h'.eq ho).symm
    have admits : ∀ {path}, x.Admits w stack src path → x.Admits w' stack src path :=
      fun ha => ⟨alike.resolve ▸ ha.resolves, ha.fresh, ha.shallow⟩
    have read : ∀ {path cs}, x.Admits w stack src path → x.fragments.readPath w path = .ok cs →
        x.fragments.readPath w' path = .ok cs := by
      intro path cs ha hread
      rcases alike.readPath path ha.resolves with heq | ⟨reason, -, hfault, -⟩
      · exact heq ▸ hread
      · cases hread.symm.trans hfault
    cases h with
    | ended ho' => exact .ended ho'
    | unresolved hres => exact .unresolved (alike.resolve ▸ hres)
    | circular hres hin => exact .circular (alike.resolve ▸ hres) hin
    | deep hres hnew hdeep => exact .deep (alike.resolve ▸ hres) hnew hdeep
    | unreadable ha hread =>
      rcases alike.readPath _ ha.resolves with heq | ⟨reason, reason', hfault, hfault'⟩
      · exact .unreadable (admits ha) (heq ▸ hread)
      · cases hread.symm.trans hfault
        -- the reason is no part of the message
        have : Attempted x w' fill stack descend' src slots run .failed _ := .unreadable (admits ha) hfault'
        exact this
    | unusable ha hread hf =>
      rcases alike.readPath _ ha.resolves with heq | ⟨reason, -, hfault, -⟩
      · exact .unusable (admits ha) (heq ▸ hread) hf
      · cases hread.symm.trans hfault
        exact absurd rfl (hf _ _)
    | rejected ha hread hp => exact .rejected (admits ha) (read ha hread) hp
    | broken ha hread hp hfile hnew hr hover =>
      have hfile' := Fragments.mem_filePaths_of_readPath (admits ha).resolves (read ha hread)
      exact .broken (admits ha) (read ha hread) hp hfile' hnew
        (hr.trans (enters _ _ _ ho ha hread hp hfile hfile' hnew)) hover
    | entered ha hread hp hfile hnew hr hover =>
      have hfile' := Fragments.mem_filePaths_of_readPath (admits ha).resolves (read ha hread)
      exact .entered (admits ha) (read ha hread) hp hfile' hnew
        (hr.trans (enters _ _ _ ho ha hread hp hfile hfile' hnew)) hover

/-- **An expansion depends on the files only through the references that it follows.** -/
theorem expand_eq_of_readsAlike {items : List Content}
    (hitems : Content.Refers (x.fragments.ReadsAlike w w') items)
    (hloads : Run.LoadsRefer (x.fragments.ReadsAlike w w') (x.expand w stack run items).2) :
    x.expand w stack run items = x.expand w' stack run items := by
  induction stack, run, items using Expander.expand.induct w with
  | case1 stack run items ih =>
    rw [expand_eq] at hloads
    rw [expand_eq, expand_eq]
    have hannounced : Content.Refers (x.fragments.ReadsAlike w w') (Content.announced items) := by
      rw [Content.refers_iff, Content.directives_announced, ← Content.refers_iff]
      exact hitems
    refine (Attempt.perform_eq_of_agree
      ((x.respects_extends w stack).good Run.LoadsRefer.of_extends) ?_ hannounced hloads).symm
    intro src slots run alike hg
    refine (attempt_eq_of_readsAlike alike ?_).symm
    intro path cs items ho ha hread hp hfile hfile' hnew
    let l : Load := ⟨stack, src, path, slots, String.ofList cs⟩
    let r := x.expand w (stack ++ [path]) ((run.load l).resolved (slots.fill items).resolved)
      (slots.fill items).content
    have hfilled : l.filled = slots.fill items := by
      rw [Load.filled, Load.fragment, hp]
      rfl
    have hgood : Run.LoadsRefer (x.fragments.ReadsAlike w w') r.2 := by
      rw [attempt_of_text ho ha hread hfile hnew, hp] at hg
      dsimp only at hg
      split at hg <;> exact hg
    have hloaded : l ∈ r.2.loads := x.mem_loads_expand w _ run l _ _
    exact ih path hfile hnew _ _ (hfilled ▸ hgood l hloaded) hgood

/-! ### Documents -/

/-- The paths that the references in a document, and in all fragments that are loaded for it, lead to. -/
def Asks (x : Expander) (w : FileTree) (document markup : String) (path : Path) : Prop :=
  ∃ items, Markup.parse markup = .ok items ∧
    ∃ src, (src ∈ Content.directives items ∨ ∃ l ∈ (x.process w document markup).2.loads,
        src ∈ Content.directives l.filled.content) ∧
      x.fragments.resolve w src = .ok path

/-- What a reference leads to is told from the current directory. -/
theorem resolve_congr {fs : Fragments} (here : w'.here = w.here) (src : String) :
    fs.resolve w src = fs.resolve w' src := by
  simp only [Fragments.resolve, here]

/-- **A document is processed alike with other files**, if the same ones can be opened at the paths that it
asks for. -/
theorem process_eq_of_asks {document markup : String} (here : w'.here = w.here)
    (hopen : ∀ path, x.Asks w document markup path →
      ∀ f, w.openFile path = .ok f ↔ w'.openFile path = .ok f) :
    x.process w document markup = x.process w' document markup := by
  cases hp : Markup.parse markup with
  | error f => simp only [process, processBy, hp]
  | ok items =>
    have alike : ∀ src, (src ∈ Content.directives items ∨ ∃ l ∈ (x.process w document markup).2.loads,
        src ∈ Content.directives l.filled.content) → x.fragments.ReadsAlike w w' src := fun src hsrc =>
      Fragments.readsAlike_of_openFile (resolve_congr here src) fun path hpath =>
        hopen path ⟨items, hp, src, hsrc, hpath⟩
    have hrun : (x.process w document markup).2 = (x.expand w [] (opening document) items).2 :=
      snd_process_of_parse hp
    have hexpand : x.expand w [] (opening document) items = x.expand w' [] (opening document) items :=
      expand_eq_of_readsAlike
        (Content.refers_iff.2 fun src hsrc => alike src (.inl hsrc))
        (fun l hl => Content.refers_iff.2 fun src hsrc => alike src (.inr ⟨l, hrun ▸ hl, hsrc⟩))
    rw [process_of_parse hp, process_of_parse hp, hexpand]

end Expander
end PageComposer
