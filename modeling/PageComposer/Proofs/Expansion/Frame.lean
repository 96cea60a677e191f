/-
# What an expansion looks at

An expansion looks at nothing in its run but whether that has ended: from runs that differ in their reports
it makes the same document, and adds the same to both (`Expander.shifted_expand`).  In the slots of a
directive it looks up what they hold under each name, so their order does not matter either
(`Attempt.Framed`, `Expander.framed`).

Reports are measured in any monoid to which their entries add up (`Report.Measure`):

| measure | tells |
| --- | --- |
| `Report.tally` | the entries of each kind, however often and in whatever order |
| `Report.inOrder` | the entries of each kind, in order |
-/

import Mathlib.Algebra.FreeMonoid.Basic
import Mathlib.Algebra.Order.Monoid.Unbundled.WithTop
import PageComposer.Proofs.Expansion.Faults
import PageComposer.Proofs.Expansion.Simulation

namespace PageComposer

/-! ### Slots that hold the same -/

namespace SlotMap

/-- Slots that hold the same under each name. -/
def Same (slots slots' : SlotMap) : Prop := ∀ name, slots.get? name = slots'.get? name

theorem Same.refl (slots : SlotMap) : Same slots slots := fun _ => rfl

theorem get?_erase (slots : SlotMap) (n name : String) :
    (slots.erase n).get? name = if name = n then none else slots.get? name := by
  induction slots with
  | nil => simp [erase]
  | cons s rest ih =>
    by_cases hs : s.1 = n
    · have herase : erase (s :: rest) n = erase rest n := by simp [erase, hs]
      rw [herase, ih, get?_cons]
      by_cases hn : name = n
      · simp [hn]
      · rw [if_neg hn, if_neg hn, if_neg (by simpa [hs] using Ne.symm hn)]
    · have herase : erase (s :: rest) n = s :: erase rest n := by simp [erase, hs]
      rw [herase, get?_cons, get?_cons, ih]
      by_cases hn : name = n
      · simp [hn, hs]
      · simp [hn]

/-- Slots that hold the same are substituted alike. -/
theorem Same.fill {slots slots' : SlotMap} (h : Same slots slots') (items : List Content) :
    slots.fill items = slots'.fill items := by
  induction hn : slots.length using Nat.strongRecOn generalizing slots slots' items with
  | ind n ih =>
    rw [fill_eq, fill_eq]
    congr 1
    funext name
    rw [h name]
    cases hc : slots'.get? name with
    | none => rfl
    | some content =>
      have hlength := length_erase_lt ((h name).trans hc)
      have herase : Same (slots.erase name) (slots'.erase name) := fun m => by
        rw [get?_erase, get?_erase, h m]
      rw [Option.map_some, Option.map_some, ih _ (hn ▸ hlength) herase _ rfl]

end SlotMap

/-- Slots that hold the same are spliced alike. -/
theorem AttributeSlots.rewrite_congr {slots slots' : SlotMap} (h : SlotMap.Same slots slots')
    (source : String) : rewrite slots source = rewrite slots' source := by
  have hfor : ∀ s, replacementFor slots s = replacementFor slots' s := fun s => by
    rw [replacementFor, replacementFor, h]
  have hfrom : ∀ fuel cs, rewriteFrom slots fuel cs = rewriteFrom slots' fuel cs := by
    intro fuel
    induction fuel with
    | zero => exact fun _ => rfl
    | succ fuel ih =>
      intro cs
      cases cs with
      | nil => rfl
      | cons c cs => simp only [rewriteFrom, ih, hfor]
  rw [rewrite, rewrite, hfrom]

/-! ### Measures of reports -/

/-- A measure of reports to which entries add up. -/
structure Report.Measure (M : Type) [AddMonoid M] where
  of : Report → M
  of_new : ∀ document, of { document := document } = 0
  of_warnings : ∀ r messages, of { r with warnings := r.warnings ++ messages } =
    of r + of { warnings := messages }
  of_addError : ∀ r message, of (r.addError message) = of r + of (Report.addError {} message)
  of_addInclude : ∀ r src, of (r.addInclude src) = of r + of (Report.addInclude {} src)
  of_addPlaceholders : ∀ r n, of (r.addPlaceholders n) = of r + of (Report.addPlaceholders {} n)

/-- The entries of each kind, and the number of placeholders. -/
def Report.tally : Measure (Multiset String × Multiset String × Multiset String × Int) where
  of r := (r.includes, r.warnings, r.errors, r.placeholders)
  of_new _ := rfl
  of_warnings r messages := by simp
  of_addError r message := by simp [Report.addError, ← Multiset.coe_add]
  of_addInclude r src := by simp [Report.addInclude, ← Multiset.coe_add]
  of_addPlaceholders r n := by simp [Report.addPlaceholders]

/-- The entries of each kind in order, and the number of placeholders. -/
def Report.inOrder : Measure (FreeAddMonoid String × FreeAddMonoid String × FreeAddMonoid String × Int) where
  of r := (.ofList r.includes, .ofList r.warnings, .ofList r.errors, r.placeholders)
  of_new _ := rfl
  of_warnings r messages := by simp
  of_addError r message := by simp [Report.addError]
  of_addInclude r src := by simp [Report.addInclude]
  of_addPlaceholders r n := by simp [Report.addPlaceholders]

variable {M : Type} [AddMonoid M] {μ : Report.Measure M}

namespace Run

/-- The measure of the report of a run; a run that has ended is beyond all amounts. -/
def cost (μ : Report.Measure M) (run : Run) : WithTop M := if run.isOver then ⊤ else (μ.of run.report : M)

/-- A run that stands where another does, with `c` more in its report. -/
structure Shifted (μ : Report.Measure M) (c : M) (run run' : Run) : Prop where
  isOver : run'.isOver = run.isOver
  report : μ.of run'.report = c + μ.of run.report

theorem cost_of_isOver {run : Run} (h : run.isOver = true) : run.cost μ = ⊤ := if_pos h

theorem cost_of_goes {run : Run} (h : run.isOver = false) : run.cost μ = (μ.of run.report : M) :=
  if_neg (by simp [h])

theorem cost_eq_top_iff {run : Run} : run.cost μ = ⊤ ↔ run.isOver = true := by
  unfold cost
  split <;> simp_all

theorem cost_congr {run run' : Run} (hover : run'.isOver = run.isOver) (hreport : run'.report = run.report) :
    run'.cost μ = run.cost μ := by
  rw [cost, cost, hover, hreport]

variable {c : M} {run run' : Run}

theorem Shifted.cost (h : Shifted μ c run run') : run'.cost μ = (c : WithTop M) + run.cost μ := by
  cases ho : run.isOver with
  | true => rw [cost_of_isOver ho, cost_of_isOver (h.isOver.trans ho), WithTop.add_top]
  | false => rw [cost_of_goes ho, cost_of_goes (h.isOver.trans ho), h.report, WithTop.coe_add]

/-- A run that goes on stands where a new one does, with its own report. -/
theorem shifted_of_goes (h : run.isOver = false) : Shifted μ (μ.of run.report) {} run where
  isOver := h
  report := by rw [μ.of_new, add_zero]

/-- What changes neither the end nor the report shifts with the run. -/
theorem Shifted.of_eq {f : Run → Run} (hover : ∀ run, (f run).isOver = run.isOver)
    (hreport : ∀ run, (f run).report = run.report) (h : Shifted μ c run run') :
    Shifted μ c (f run) (f run') where
  isOver := by rw [hover, hover, h.isOver]
  report := by rw [hreport, hreport, h.report]

theorem isOver_of_like (h : run.Like run') : run'.isOver = run.isOver := by
  rw [Run.isOver, h.fault, Run.isOver]

theorem Shifted.skip (h : Shifted μ c run run') (sources : List String) :
    Shifted μ c (run.skip sources) (run'.skip sources) :=
  h.of_eq (fun run => isOver_of_like (run.like_skip sources)) fun run => report_skip run sources

theorem Shifted.release (h : Shifted μ c run run') (items : List Content) :
    Shifted μ c (run.release items) (run'.release items) :=
  ⟨h.isOver, h.report⟩

theorem Shifted.abort (h : Shifted μ c run run') (f : FragmentFault) :
    Shifted μ c (run.abort f) (run'.abort f) :=
  ⟨rfl, h.report⟩

theorem Shifted.fail (h : Shifted μ c run run') (message : String) :
    Shifted μ c (run.fail message) (run'.fail message) where
  isOver := h.isOver
  report := by
    have hreport : ∀ run : Run, (run.fail message).report = run.report.addError message := fun _ => rfl
    rw [hreport, hreport, μ.of_addError, h.report, add_assoc, ← μ.of_addError]

theorem Shifted.load (h : Shifted μ c run run') (l l' : Load) :
    Shifted μ c (run.load l) (run'.load l') :=
  ⟨h.isOver, h.report⟩

theorem Shifted.included (h : Shifted μ c run run') (src : String) :
    Shifted μ c (run.included src) (run'.included src) where
  isOver := h.isOver
  report := by
    have hreport : ∀ run : Run, (run.included src).report = run.report.addInclude src := fun _ => rfl
    rw [hreport, hreport, μ.of_addInclude, h.report, add_assoc, ← μ.of_addInclude]

theorem Shifted.resolved (h : Shifted μ c run run') (names : List (Option String)) :
    Shifted μ c (run.resolved names) (run'.resolved names) where
  isOver := by
    rw [isOver_of_like (run.like_resolved names), isOver_of_like (run'.like_resolved names), h.isOver]
  report := by
    rw [report_resolved, report_resolved, μ.of_addPlaceholders, h.report, add_assoc,
      ← μ.of_addPlaceholders]

theorem isOver_announce (run : Run) (items : List Content) :
    (run.announce items).2.isOver = run.isOver := by
  rw [Run.isOver, fault_announce, Run.isOver]

theorem Shifted.announce (h : Shifted μ c run run') (items : List Content) :
    Shifted μ c (run.announce items).2 (run'.announce items).2 where
  isOver := by rw [isOver_announce, isOver_announce, h.isOver]
  report := by
    rw [report_announce, report_announce, μ.of_warnings, h.report, add_assoc, ← μ.of_warnings]

end Run

/-! ### Walks that look at nothing in the run -/

/-- Attempts that look only at what the slots hold under each name, and in the run only at whether it has
ended. -/
structure Attempt.Framed (μ : Report.Measure M) (A : Attempt) : Prop where
  alike : ∀ {c : M} {src slots slots' run run'}, SlotMap.Same slots slots' → Run.Shifted μ c run run' →
    (A src slots' run').1 = (A src slots run).1 ∧
      Run.Shifted μ c (A src slots run).2 (A src slots' run').2

/-- So do the walks that make these attempts. -/
theorem Attempt.Framed.perform {A : Attempt} (hA : A.Framed μ) {c : M} {run run' : Run}
    (h : Run.Shifted μ c run run') (items : List Content) :
    (A.perform run' items).1 = (A.perform run items).1 ∧
      Run.Shifted μ c (A.perform run items).2 (A.perform run' items).2 := by
  have hS : A.Simulates A (Run.Shifted μ c) (fun _ => True) (fun _ => True) :=
    { good := ⟨fun _ => id, fun h₁ h₂ => h₁ ∘ h₂, fun _ _ _ => id, fun _ _ => id, fun _ _ => id⟩
      attempt := fun _ h _ => hA.alike (.refl _) h
      skip := fun sources h => h.skip sources
      release := fun items h => h.release items }
  exact hS.perform h (fun _ _ _ _ => trivial) trivial

namespace Expander

variable {x : Expander} {w : FileTree}

/-- An attempt is framed, if what it enters is. -/
theorem framed_attempt {stack : List Path}
    (hd : ∀ path, path ∈ w.filePaths → stack.contains path = false →
      ∀ {c : M} {run run' : Run} (items : List Content), Run.Shifted μ c run run' →
        (x.expand w (stack ++ [path]) run' items).1 = (x.expand w (stack ++ [path]) run items).1 ∧
          Run.Shifted μ c (x.expand w (stack ++ [path]) run items).2
            (x.expand w (stack ++ [path]) run' items).2) :
    (x.attempt w SlotMap.fill stack (x.descent w stack)).Framed μ := by
  constructor
  intro c src slots slots' run run' hslots hrun
  cases ho : run.isOver with
  | true =>
    have ho' := hrun.isOver.trans ho
    simp only [attempt, ho, ho', if_true, true_and]
    exact hrun
  | false =>
    have ho' := hrun.isOver.trans ho
    have h := x.attempted w SlotMap.fill stack (x.descent w stack) src slots run
    revert h
    generalize x.attempt w SlotMap.fill stack (x.descent w stack) src slots run = r
    intro h
    obtain ⟨o, after⟩ := r
    -- the other attempt ends in the same way
    suffices h' : ∃ after', Attempted x w SlotMap.fill stack (x.descent w stack) src slots' run' o after' ∧
        Run.Shifted μ c after after' by
      obtain ⟨after', h', hafter⟩ := h'
      rw [h'.eq ho']
      exact ⟨rfl, hafter⟩
    have hsource : ∀ path text, Load.source ⟨stack, src, path, slots, text⟩ =
        Load.source ⟨stack, src, path, slots', text⟩ := fun _ text =>
      AttributeSlots.rewrite_congr hslots text
    have inner : ∀ (path : Path) (cs : List Char) (items : List Content) (hfile : path ∈ w.filePaths)
        (hnew : stack.contains path = false),
        (x.descent w stack path hfile hnew ((run'.load ⟨stack, src, path, slots', String.ofList cs⟩).resolved
            (slots'.fill items).resolved) (slots'.fill items).content).1 =
          (x.descent w stack path hfile hnew ((run.load ⟨stack, src, path, slots, String.ofList cs⟩).resolved
            (slots.fill items).resolved) (slots.fill items).content).1 ∧
        Run.Shifted μ c
          (x.descent w stack path hfile hnew ((run.load ⟨stack, src, path, slots, String.ofList cs⟩).resolved
            (slots.fill items).resolved) (slots.fill items).content).2
          (x.descent w stack path hfile hnew ((run'.load ⟨stack, src, path, slots', String.ofList cs⟩).resolved
            (slots'.fill items).resolved) (slots'.fill items).content).2 := by
      intro path cs items hfile hnew
      rw [hslots.fill]
      exact hd path hfile hnew _ ((hrun.load _ _).resolved _)
    cases h with
    | ended ho₂ => rw [ho] at ho₂; cases ho₂
    | unresolved hr => exact ⟨_, .unresolved hr, hrun.abort _⟩
    | circular hr hin => exact ⟨_, .circular hr hin, hrun.fail _⟩
    | deep hr hnew hdeep => exact ⟨_, .deep hr hnew hdeep, hrun.fail _⟩
    | unreadable ha hread => exact ⟨_, .unreadable ha hread, hrun.fail _⟩
    | unusable ha hread hf => exact ⟨_, .unusable ha hread hf, hrun.abort _⟩
    | rejected ha hread hp => exact ⟨_, .rejected ha hread (hsource .. ▸ hp), (hrun.load ..).abort _⟩
    | broken ha hread hp hfile hnew hr hover =>
      obtain ⟨-, hshift⟩ := inner _ _ _ hfile hnew
      rw [← hr] at hshift
      exact ⟨_, .broken ha hread (hsource .. ▸ hp) hfile hnew rfl (hshift.isOver.trans hover), hshift⟩
    | entered ha hread hp hfile hnew hr hover =>
      obtain ⟨htree, hshift⟩ := inner _ _ _ hfile hnew
      rw [← hr] at htree hshift
      refine ⟨_, ?_, hshift.included src⟩
      rw [← htree]
      exact .entered ha hread (hsource .. ▸ hp) hfile hnew rfl (hshift.isOver.trans hover)

/-- **Expansions look at nothing in the run** but whether it has ended. -/
theorem shifted_expand {stack : List Path} {c : M} {run run' : Run} (items : List Content)
    (h : Run.Shifted μ c run run') :
    (x.expand w stack run' items).1 = (x.expand w stack run items).1 ∧
      Run.Shifted μ c (x.expand w stack run items).2 (x.expand w stack run' items).2 := by
  rw [expand_eq, expand_eq]
  have hframed : (x.attempt w SlotMap.fill stack (x.descent w stack)).Framed μ :=
    framed_attempt fun path hfile hnew _ _ _ items h => shifted_expand items h
  exact hframed.perform (h.announce items) _
termination_by w.unvisited stack
decreasing_by exact FileTree.unvisited_lt hfile hnew

theorem framed (x : Expander) (w : FileTree) (stack : List Path) :
    (x.attempt w SlotMap.fill stack (x.descent w stack)).Framed μ :=
  framed_attempt fun _ _ _ _ _ _ items h => shifted_expand items h

end Expander

end PageComposer
