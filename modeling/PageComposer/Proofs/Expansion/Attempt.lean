/-
# What an attempt at a directive can do

An attempt ends in one of nine ways (`Expander.Attempted`), and every statement about attempts is read off
these:

| way | outcome | run |
| --- | --- | --- |
| `ended`: the expansion has ended | aborted | as it is |
| `unresolved`: the reference leads to no path | aborted | ended |
| `circular`: the path is being expanded | failed | an error more |
| `deep`: the depth is reached | failed | an error more |
| `unreadable`: the file cannot be read | failed | an error more |
| `unusable`: another fault of reading | aborted | ended |
| `rejected`: the text is no markup | aborted | a load more, ended |
| `broken`: the fragment's own expansion has ended | aborted | as that left it |
| `entered`: all went well | resolved | as that left it, an include more |

A run only grows (`Run.Extends`).
-/

import PageComposer.Expansion.Expand
import PageComposer.Proofs.Expansion.Performed

namespace PageComposer

/-! ### Runs -/

namespace Run

/-- A run that another goes on with: it has ended if that had, and nothing in its report and its loads is
lost. -/
structure Extends (run run' : Run) : Prop where
  ended : run.isOver = true → run'.isOver = true
  warnings : run.report.warnings <+: run'.report.warnings
  errors : run.report.errors <+: run'.report.errors
  loads : run.loads <:+ run'.loads

theorem Extends.refl (run : Run) : run.Extends run :=
  ⟨id, List.prefix_rfl, List.prefix_rfl, List.suffix_rfl⟩

theorem Extends.trans {a b c : Run} (h₁ : a.Extends b) (h₂ : b.Extends c) : a.Extends c :=
  ⟨h₂.ended ∘ h₁.ended, h₁.warnings.trans h₂.warnings, h₁.errors.trans h₂.errors,
    h₁.loads.trans h₂.loads⟩

theorem Extends.goes {run run' : Run} (he : run.Extends run') (hg : run'.isOver = false) :
    run.isOver = false :=
  Bool.eq_false_iff.2 fun ho => by
    rw [he.ended ho] at hg
    cases hg

/-- A run that differs from another at most in its log, its release and the other parts of its
report. -/
structure Like (run run' : Run) : Prop where
  fault : run'.fault? = run.fault?
  warnings : run'.report.warnings = run.report.warnings
  errors : run'.report.errors = run.report.errors
  loads : run'.loads = run.loads

theorem Like.extends {run run' : Run} (h : run.Like run') : run.Extends run' :=
  ⟨fun ho => by rwa [isOver, h.fault], h.warnings ▸ List.prefix_rfl, h.errors ▸ List.prefix_rfl,
    h.loads ▸ List.suffix_rfl⟩

theorem Like.trans {a b c : Run} (h₁ : a.Like b) (h₂ : b.Like c) : a.Like c :=
  ⟨h₂.fault.trans h₁.fault, h₂.warnings.trans h₁.warnings, h₂.errors.trans h₁.errors,
    h₂.loads.trans h₁.loads⟩

/-- What no step changes is not changed by steps one after another. -/
theorem foldl_keeps {α β : Type} {step : Run → α → Run} (f : Run → β)
    (hf : ∀ run a, f (step run a) = f run) (run : Run) (as : List α) : f (as.foldl step run) = f run := by
  induction as generalizing run with
  | nil => rfl
  | cons a as ih => exact (ih (step run a)).trans (hf run a)

/-- What no remark changes is not changed by remarks one after another. -/
theorem remarks_keep {α β : Type} (f : Run → β)
    (hf : ∀ run speaker message, f (debug run speaker message) = f run) (speaker : Speaker)
    (message : α → String) (run : Run) (as : List α) :
    f (as.foldl (fun run a => run.debug speaker (message a)) run) = f run :=
  foldl_keeps f (fun run a => hf run speaker (message a)) run as

theorem skip_keeps {β : Type} (f : Run → β)
    (hf : ∀ run speaker message, f (debug run speaker message) = f run) (run : Run)
    (sources : List String) : f (run.skip sources) = f run := by
  unfold skip
  split
  · rfl
  · exact remarks_keep f hf .engine _ run sources

theorem like_skip (run : Run) (sources : List String) : run.Like (run.skip sources) where
  fault := skip_keeps Run.fault? (fun _ _ _ => rfl) run sources
  warnings := skip_keeps (fun run => run.report.warnings) (fun _ _ _ => rfl) run sources
  errors := skip_keeps (fun run => run.report.errors) (fun _ _ _ => rfl) run sources
  loads := skip_keeps Run.loads (fun _ _ _ => rfl) run sources

theorem like_resolved (run : Run) (names : List (Option String)) : run.Like (run.resolved names) where
  fault := remarks_keep Run.fault? (fun _ _ _ => rfl) .slots _ run names
  warnings := remarks_keep (fun run => run.report.warnings) (fun _ _ _ => rfl) .slots _ run names
  errors := remarks_keep (fun run => run.report.errors) (fun _ _ _ => rfl) .slots _ run names
  loads := remarks_keep Run.loads (fun _ _ _ => rfl) .slots _ run names

theorem like_release (run : Run) (items : List Content) : run.Like (run.release items) :=
  ⟨rfl, rfl, rfl, rfl⟩

theorem like_included (run : Run) (src : String) : run.Like (run.included src) :=
  ⟨rfl, rfl, rfl, rfl⟩

theorem extends_abort (run : Run) (f : FragmentFault) : run.Extends (run.abort f) :=
  ⟨fun _ => rfl, List.prefix_rfl, List.prefix_rfl, List.suffix_rfl⟩

theorem extends_fail (run : Run) (message : String) : run.Extends (run.fail message) :=
  ⟨id, List.prefix_rfl, List.prefix_append .., List.suffix_rfl⟩

theorem extends_warn (run : Run) (message : String) : run.Extends (run.warn message) :=
  ⟨id, List.prefix_append .., List.prefix_rfl, List.suffix_rfl⟩

theorem extends_load (run : Run) (l : Load) : run.Extends (run.load l) :=
  ⟨id, List.prefix_rfl, List.prefix_rfl, List.suffix_cons ..⟩

end Run

/-! ### One attempt -/

namespace Expander

/-- A reference that may be followed: it leads to a path that is not being expanded, and the depth is
not reached. -/
structure Admits (x : Expander) (w : FileTree) (stack : List Path) (src : String) (path : Path) :
    Prop where
  resolves : x.fragments.resolve w src = .ok path
  fresh : path ∉ stack
  shallow : (stack.length : Int) < x.maxDepth

/-- How a fragment that is entered is expanded. -/
abbrev Descent (w : FileTree) (stack : List Path) :=
  (path : Path) → path ∈ w.filePaths → stack.contains path = false → Run → List Content →
    List Content × Run

/-- What an attempt can do: its outcome, and the run that it leaves. -/
inductive Attempted (x : Expander) (w : FileTree) (fill : SlotMap → List Content → Filled)
    (stack : List Path) (descend : Descent w stack) (src : String) (slots : SlotMap) (run : Run) :
    Outcome → Run → Prop
  | ended (ho : run.isOver = true) : Attempted x w fill stack descend src slots run .aborted run
  | unresolved {f : FragmentFault} (hr : x.fragments.resolve w src = .error f) :
      Attempted x w fill stack descend src slots run .aborted (run.abort f)
  | circular {path : Path} (hr : x.fragments.resolve w src = .ok path) (hin : path ∈ stack) :
      Attempted x w fill stack descend src slots run .failed
        (run.fail
          ("Circular include detected: " ++ " -> ".intercalate ((stack ++ [path]).map Path.text)))
  | deep {path : Path} (hr : x.fragments.resolve w src = .ok path) (hnew : path ∉ stack)
      (hdeep : x.maxDepth ≤ stack.length) :
      Attempted x w fill stack descend src slots run .failed
        (run.fail
          (s!"Include depth {stack.length + 1} exceeds max_depth={x.maxDepth}: " ++ path.text))
  | unreadable {path p : Path} {reason : String} (ha : x.Admits w stack src path)
      (hread : x.fragments.readPath w path = .error (.unreadable p reason)) :
      Attempted x w fill stack descend src slots run .failed
        (run.fail (FragmentFault.unreadable p reason).message)
  | unusable {path : Path} {f : FragmentFault} (ha : x.Admits w stack src path)
      (hread : x.fragments.readPath w path = .error f)
      (hf : ∀ p reason, f ≠ .unreadable p reason) :
      Attempted x w fill stack descend src slots run .aborted (run.abort f)
  | rejected {path : Path} {cs : List Char} {f : Markup.Fault} (ha : x.Admits w stack src path)
      (hread : x.fragments.readPath w path = .ok cs)
      (hp : Markup.parse (Load.source ⟨stack, src, path, slots, String.ofList cs⟩) = .error f) :
      Attempted x w fill stack descend src slots run .aborted
        ((run.load ⟨stack, src, path, slots, String.ofList cs⟩).abort (.markup f))
  | broken {path : Path} {cs : List Char} {items : List Content} (ha : x.Admits w stack src path)
      (hread : x.fragments.readPath w path = .ok cs)
      (hp : Markup.parse (Load.source ⟨stack, src, path, slots, String.ofList cs⟩) = .ok items)
      (hfile : path ∈ w.filePaths) (hnew : stack.contains path = false) {r : List Content × Run}
      (hr : r = descend path hfile hnew
        ((run.load ⟨stack, src, path, slots, String.ofList cs⟩).resolved (fill slots items).resolved)
        (fill slots items).content)
      (ho : r.2.isOver = true) : Attempted x w fill stack descend src slots run .aborted r.2
  | entered {path : Path} {cs : List Char} {items : List Content} (ha : x.Admits w stack src path)
      (hread : x.fragments.readPath w path = .ok cs)
      (hp : Markup.parse (Load.source ⟨stack, src, path, slots, String.ofList cs⟩) = .ok items)
      (hfile : path ∈ w.filePaths) (hnew : stack.contains path = false) {r : List Content × Run}
      (hr : r = descend path hfile hnew
        ((run.load ⟨stack, src, path, slots, String.ofList cs⟩).resolved (fill slots items).resolved)
        (fill slots items).content)
      (ho : r.2.isOver = false) :
      Attempted x w fill stack descend src slots run (.resolved r.1) (r.2.included src)

/-- **An attempt ends in one of the nine ways.** -/
theorem attempted (x : Expander) (w : FileTree) (fill : SlotMap → List Content → Filled)
    (stack : List Path) (descend : Descent w stack) (src : String) (slots : SlotMap) (run : Run) :
    Attempted x w fill stack descend src slots run
      (x.attempt w fill stack descend src slots run).1
      (x.attempt w fill stack descend src slots run).2 := by
  unfold attempt
  split
  · rename_i ho
    exact .ended ho
  · split
    · rename_i f hr
      exact .unresolved hr
    · rename_i path hr
      split
      · rename_i hin
        exact .circular hr (by simpa using hin)
      · rename_i hnew
        have hfresh : path ∉ stack := by simpa using hnew
        split
        · rename_i hdeep
          exact .deep hr hfresh hdeep
        · rename_i hdeep
          have ha : x.Admits w stack src path := ⟨hr, hfresh, by omega⟩
          split
          · rename_i p reason hread
            exact .unreadable ha hread
          · rename_i f hf hread
            exact .unusable ha hread fun p reason h => hf p reason h
          · rename_i cs hread
            dsimp only
            split
            · rename_i f hp
              exact .rejected ha hread hp
            · rename_i items hp
              split
              · rename_i ho
                exact .broken ha hread hp _ _ rfl ho
              · rename_i ho
                exact .entered ha hread hp _ _ rfl (by simpa using ho)

section

variable {x : Expander} {w : FileTree} {stack : List Path} {src : String} {slots : SlotMap} {run : Run}
  {fill : SlotMap → List Content → Filled} {descend : Descent w stack}

theorem attempt_of_fault {path : Path} {f : FragmentFault} (ho : run.isOver = false)
    (ha : x.Admits w stack src path) (hread : x.fragments.readPath w path = .error f) :
    x.attempt w fill stack descend src slots run =
      match f with
      | .unreadable p reason => (.failed, run.fail (FragmentFault.unreadable p reason).message)
      | f => (.aborted, run.abort f) := by
  have := ha.shallow
  unfold attempt
  rw [if_neg (by simp [ho])]
  split
  · rename_i f hf
    cases hf.symm.trans ha.resolves
  · rename_i p hp
    obtain rfl := Except.ok.inj (hp.symm.trans ha.resolves)
    rw [dif_neg (by simpa using ha.fresh), if_neg (by omega)]
    split
    · rename_i p reason hr
      cases hr.symm.trans hread
      rfl
    · rename_i f hf hr
      obtain rfl := Except.error.inj (hr.symm.trans hread)
      cases f <;> first | rfl | exact absurd rfl (hf _ _)
    · rename_i cs hr
      cases hr.symm.trans hread

theorem attempt_of_text {path : Path} {cs : List Char} (ho : run.isOver = false)
    (ha : x.Admits w stack src path) (hread : x.fragments.readPath w path = .ok cs)
    (hfile : path ∈ w.filePaths) (hnew : stack.contains path = false) :
    x.attempt w fill stack descend src slots run =
      match Markup.parse (Load.source ⟨stack, src, path, slots, String.ofList cs⟩) with
      | .error f =>
        (.aborted, (run.load ⟨stack, src, path, slots, String.ofList cs⟩).abort (.markup f))
      | .ok items =>
        if (descend path hfile hnew
            ((run.load ⟨stack, src, path, slots, String.ofList cs⟩).resolved (fill slots items).resolved)
            (fill slots items).content).2.isOver then
          (.aborted, (descend path hfile hnew
            ((run.load ⟨stack, src, path, slots, String.ofList cs⟩).resolved (fill slots items).resolved)
            (fill slots items).content).2)
        else
          (.resolved (descend path hfile hnew
            ((run.load ⟨stack, src, path, slots, String.ofList cs⟩).resolved (fill slots items).resolved)
            (fill slots items).content).1,
          (descend path hfile hnew
            ((run.load ⟨stack, src, path, slots, String.ofList cs⟩).resolved (fill slots items).resolved)
            (fill slots items).content).2.included src) := by
  have := ha.shallow
  unfold attempt
  rw [if_neg (by simp [ho])]
  split
  · rename_i f hf
    cases hf.symm.trans ha.resolves
  · rename_i p hp
    obtain rfl := Except.ok.inj (hp.symm.trans ha.resolves)
    rw [dif_neg (by simpa using ha.fresh), if_neg (by omega)]
    split
    · rename_i p reason hr
      cases hr.symm.trans hread
    · rename_i f hf hr
      cases hr.symm.trans hread
    · rename_i cs' hr
      obtain rfl := Except.ok.inj (hr.symm.trans hread)
      rfl

/-- What an attempt can do where the run goes on is what it does. -/
theorem Attempted.eq {run' : Run} {o : Outcome} (ho : run.isOver = false)
    (h : Attempted x w fill stack descend src slots run o run') :
    x.attempt w fill stack descend src slots run = (o, run') := by
  cases h with
  | ended ho' => rw [ho] at ho'; cases ho'
  | unresolved hr =>
    unfold attempt
    rw [if_neg (by simp [ho])]
    split
    · rename_i f hf
      rw [Except.error.inj (hf.symm.trans hr)]
    · rename_i p hp
      cases hp.symm.trans hr
  | circular hr hin =>
    unfold attempt
    rw [if_neg (by simp [ho])]
    split
    · rename_i f hf
      cases hf.symm.trans hr
    · rename_i p hp
      obtain rfl := Except.ok.inj (hp.symm.trans hr)
      rw [dif_pos (by simpa using hin)]
      rfl
  | deep hr hnew hdeep =>
    unfold attempt
    rw [if_neg (by simp [ho])]
    split
    · rename_i f hf
      cases hf.symm.trans hr
    · rename_i p hp
      obtain rfl := Except.ok.inj (hp.symm.trans hr)
      rw [dif_neg (by simpa using hnew), if_pos hdeep]
  | unreadable ha hread => exact attempt_of_fault ho ha hread
  | @unusable path f ha hread hf =>
    rw [attempt_of_fault ho ha hread]
    cases f <;> first | rfl | exact absurd rfl (hf _ _)
  | rejected ha hread hp =>
    rw [attempt_of_text ho ha hread
      (Fragments.mem_filePaths_of_readPath ha.resolves hread) (by simpa using ha.fresh), hp]
  | broken ha hread hp hfile hnew hr hover =>
    subst hr
    rw [attempt_of_text ho ha hread hfile hnew, hp]
    dsimp only
    rw [if_pos hover]
  | entered ha hread hp hfile hnew hr hover =>
    subst hr
    rw [attempt_of_text ho ha hread hfile hnew, hp]
    dsimp only
    rw [if_neg (by simp [hover])]

end

/-- An attempt goes on with the run, if what it enters does. -/
theorem Attempted.extends {x : Expander} {w : FileTree} {fill : SlotMap → List Content → Filled}
    {stack : List Path} {descend : Descent w stack} {src : String} {slots : SlotMap}
    {run run' : Run} {o : Outcome}
    (hd : ∀ path hfile hnew (run : Run) items, run.Extends (descend path hfile hnew run items).2)
    (h : Attempted x w fill stack descend src slots run o run') : run.Extends run' := by
  have inner : ∀ path hfile hnew load names items,
      run.Extends (descend path hfile hnew ((run.load load).resolved names) items).2 :=
    fun path hfile hnew load names items =>
      ((run.extends_load load).trans (Run.like_resolved _ names).extends).trans
        (hd path hfile hnew _ items)
  cases h with
  | ended ho => exact .refl run
  | unresolved hr => exact run.extends_abort _
  | circular hr hin => exact run.extends_fail _
  | deep hr hnew hdeep => exact run.extends_fail _
  | unreadable ha hread => exact run.extends_fail _
  | unusable ha hread hf => exact run.extends_abort _
  | rejected ha hread hp => exact (run.extends_load _).trans (Run.extends_abort _ _)
  | broken ha hread hp hfile hnew hr ho => exact hr ▸ inner ..
  | entered ha hread hp hfile hnew hr ho =>
    refine Run.Extends.trans ?_ (Run.like_included _ src).extends
    exact hr ▸ inner ..

end Expander

/-- A walk goes on with the run, if each attempt does. -/
theorem Attempt.respects_extends {attempt : Attempt}
    (ha : ∀ src slots (run : Run), run.Extends (attempt src slots run).2) :
    attempt.Respects Run.Extends where
  refl := .refl
  trans := .trans
  attempt := ha
  skip run sources := (run.like_skip sources).extends
  release run items := (run.like_release items).extends

/-- What only gets lost while a run goes on was there before. -/
theorem Attempt.Respects.good {attempt : Attempt} (hR : attempt.Respects Run.Extends)
    {Good : Run → Prop} (hG : ∀ {run run' : Run}, run.Extends run' → Good run' → Good run) :
    attempt.Respects fun run run' => Good run' → Good run where
  refl _ := id
  trans h₁ h₂ := h₁ ∘ h₂
  attempt src slots run := hG (hR.attempt src slots run)
  skip run sources := hG (hR.skip run sources)
  release run items := hG (hR.release run items)

end PageComposer
