/-
# The greatest depth is a cut-off

The greatest depth takes part in an expansion at one place only: a directive with that many fragments
around it fails, with an error that tells the depth (`IsDepthError`). So an expansion without such an error
is the same with every greater depth (`expand_eq_of_le`). And there is no such error where the depth is
greater than the number of readable files: the fragments around a directive are a trail, and a trail is no
longer than that (`onlyShallow_expand`).

| way of an attempt | tells a depth error |
| --- | --- |
| `deep` | yes |
| `circular`, `unreadable` | no: their messages begin otherwise |
| the other ways | only what the fragment's own expansion tells |
-/

import PageComposer.Proofs.Expansion.Simulation
import PageComposer.Proofs.Expansion.Trail

namespace PageComposer
namespace Expander

/-- The expander held to another greatest depth. -/
def withDepth (x : Expander) (d : Int) : Expander := { x with maxDepth := d }

@[simp] theorem fragments_withDepth (x : Expander) (d : Int) : (x.withDepth d).fragments = x.fragments := rfl

@[simp] theorem maxDepth_withDepth (x : Expander) (d : Int) : (x.withDepth d).maxDepth = d := rfl

/-- An error about a directive that has too many fragments around it. -/
def IsDepthError (message : String) : Prop :=
  ∃ (depth : Nat) (limit : Int) (path : Path),
    message = s!"Include depth {depth} exceeds max_depth={limit}: " ++ path.text

theorem IsDepthError.head? {message : String} (h : IsDepthError message) :
    message.toList.head? = some 'I' := by
  obtain ⟨depth, limit, path, rfl⟩ := h
  simp only [String.toList_append, List.append_assoc, List.head?_append]
  rfl

theorem not_isDepthError_circular (chain : String) :
    ¬IsDepthError ("Circular include detected: " ++ chain) := fun h => by
  have hhead : ("Circular include detected: " ++ chain).toList.head? = some 'C' := by
    rw [String.toList_append, List.head?_append]
    rfl
  cases hhead.symm.trans h.head?

theorem not_isDepthError_unreadable (path : Path) (reason : String) :
    ¬IsDepthError (FragmentFault.unreadable path reason).message := fun h => by
  have hhead : (FragmentFault.unreadable path reason).message.toList.head? = some 'C' := by
    show ("Could not read file: " ++ path.text).toList.head? = _
    rw [String.toList_append, List.head?_append]
    rfl
  cases hhead.symm.trans h.head?

/-- A run that has told no depth error. -/
def NeverDeep (run : Run) : Prop := ∀ m ∈ run.report.errors, ¬IsDepthError m

theorem NeverDeep.of_extends {run run' : Run} (h : run.Extends run') (hg : NeverDeep run') :
    NeverDeep run := fun m hm => hg m (h.errors.subset hm)

variable {x : Expander} {w : FileTree} {stack : List Path}

/-! ### A greater depth -/

theorem Admits.of_le {d d' : Int} (hd : d ≤ d') {src : String} {path : Path}
    (ha : (x.withDepth d).Admits w stack src path) : (x.withDepth d').Admits w stack src path :=
  ⟨ha.resolves, ha.fresh, lt_of_lt_of_le ha.shallow hd⟩

/-- What an attempt does without a depth error it can do with a greater depth, if what it enters does. -/
theorem Attempted.of_le {d d' : Int} (hd : d ≤ d') {descend descend' : Descent w stack} {src : String}
    {slots : SlotMap} {run run' : Run} {o : Outcome}
    (enters : ∀ path hfile hnew run items, NeverDeep (descend path hfile hnew run items).2 →
      descend' path hfile hnew run items = descend path hfile hnew run items)
    (h : Attempted (x.withDepth d) w SlotMap.fill stack descend src slots run o run')
    (hg : NeverDeep run') :
    Attempted (x.withDepth d') w SlotMap.fill stack descend' src slots run o run' := by
  cases h with
  | ended ho => exact .ended ho
  | unresolved hr => exact .unresolved hr
  | circular hr hin => exact .circular hr hin
  | deep hr hnew hdeep => exact absurd ⟨_, _, _, rfl⟩ (hg _ (List.mem_append_right _ List.mem_cons_self))
  | unreadable ha hread => exact .unreadable (ha.of_le hd) hread
  | unusable ha hread hf => exact .unusable (ha.of_le hd) hread hf
  | rejected ha hread hp => exact .rejected (ha.of_le hd) hread hp
  | broken ha hread hp hfile hnew hr ho =>
    exact .broken (ha.of_le hd) hread hp hfile hnew (hr.trans (enters _ _ _ _ _ (hr ▸ hg)).symm) ho
  | entered ha hread hp hfile hnew hr ho =>
    exact .entered (ha.of_le hd) hread hp hfile hnew (hr.trans (enters _ _ _ _ _ (hr ▸ hg)).symm) ho

/-- **An expansion without a depth error is the same with every greater depth.** -/
theorem expand_eq_of_le {d d' : Int} (hd : d ≤ d') {run : Run} {items : List Content}
    (hg : NeverDeep ((x.withDepth d).expand w stack run items).2) :
    (x.withDepth d').expand w stack run items = (x.withDepth d).expand w stack run items := by
  induction stack, run, items using Expander.expand.induct w with
  | case1 stack run items ih =>
    rw [expand_eq] at hg
    rw [expand_eq, expand_eq]
    let A := (x.withDepth d).attempt w SlotMap.fill stack ((x.withDepth d).descent w stack)
    let B := (x.withDepth d').attempt w SlotMap.fill stack ((x.withDepth d').descent w stack)
    refine Attempt.perform_eq_of_agree (A := A) (B := B) (p := fun _ => True)
      (((x.withDepth d).respects_extends w stack).good NeverDeep.of_extends) ?_ (fun _ _ _ _ => trivial) hg
    intro src slots run _ hg
    cases ho : run.isOver with
    | true => simp only [A, B, attempt, ho, if_true]
    | false =>
      exact (((x.withDepth d).attempted w SlotMap.fill stack _ src slots run).of_le hd
        (fun path hfile hnew run items => ih path hfile hnew run items) hg).eq ho

/-! ### A depth that cannot be reached -/

/-- A run that another goes on with, without a depth error between them. -/
def OnlyShallow (run run' : Run) : Prop :=
  ∀ m ∈ run'.report.errors, m ∈ run.report.errors ∨ ¬IsDepthError m

theorem OnlyShallow.of_errors_eq {run run' : Run} (h : run'.report.errors = run.report.errors) :
    OnlyShallow run run' := fun _ hm => .inl (h ▸ hm)

theorem OnlyShallow.trans {a b c : Run} (h₁ : OnlyShallow a b) (h₂ : OnlyShallow b c) :
    OnlyShallow a c := fun m hm => (h₂ m hm).elim (h₁ m) .inr

theorem OnlyShallow.fail {run : Run} {message : String} (h : ¬IsDepthError message) :
    OnlyShallow run (run.fail message) := by
  intro m hm
  rcases List.mem_append.1 hm with hm | hm
  · exact .inl hm
  · exact .inr (List.mem_singleton.1 hm ▸ h)

/-- On a trail, an attempt tells no depth error if the depth is greater than the number of readable files,
unless what it enters does. -/
theorem Attempted.onlyShallow {descend : Descent w stack} {src : String} {slots : SlotMap}
    {run run' : Run} {o : Outcome} (ht : x.Trail w stack)
    (hmax : ((x.fragments.readable w).card : Int) < x.maxDepth)
    (hd : ∀ path hfile hnew (run : Run) items, x.Trail w (stack ++ [path]) →
      OnlyShallow run (descend path hfile hnew run items).2)
    (h : Attempted x w SlotMap.fill stack descend src slots run o run') : OnlyShallow run run' := by
  have inner : ∀ {path cs names items hfile hnew}, x.Admits w stack src path →
      x.fragments.readPath w path = .ok cs → OnlyShallow run (descend path hfile hnew
        ((run.load ⟨stack, src, path, slots, String.ofList cs⟩).resolved names) items).2 := by
    intro path cs names items hfile hnew ha hread
    have hloaded : OnlyShallow run
        ((run.load ⟨stack, src, path, slots, String.ofList cs⟩).resolved names) :=
      .of_errors_eq (Run.like_resolved _ names).errors
    exact hloaded.trans (hd path hfile hnew _ items (ht.snoc ha hread))
  cases h with
  | ended _ | unresolved _ | unusable _ _ _ | rejected _ _ _ => exact .of_errors_eq rfl
  | circular _ _ => exact .fail (not_isDepthError_circular _)
  | deep _ _ hdeep =>
    -- the trail is no longer than there are readable files
    have hlen : stack.length ≤ (x.fragments.readable w).card :=
      ht.length_le.trans (min_le_right _ _)
    omega
  | unreadable _ _ => exact .fail (not_isDepthError_unreadable _ _)
  | broken ha hread hp hfile hnew hr ho => exact hr ▸ inner ha hread
  | @entered path cs items ha hread hp hfile hnew r hr ho =>
    have hin : OnlyShallow run r.2 := hr ▸ inner ha hread
    exact hin.trans (.of_errors_eq rfl)

/-- **With a depth greater than the number of readable files, no directive is too deep.** -/
theorem onlyShallow_expand (ht : x.Trail w stack)
    (hmax : ((x.fragments.readable w).card : Int) < x.maxDepth) (run : Run) (items : List Content) :
    OnlyShallow run (x.expand w stack run items).2 := by
  induction stack, run, items using Expander.expand.induct w with
  | case1 stack run items ih =>
    rw [expand_eq]
    refine OnlyShallow.trans (.of_errors_eq (run.errors_announce items)) (Attempt.Respects.perform ?_ _ _)
    exact {
      refl := fun _ => .of_errors_eq rfl
      trans := .trans
      attempt := fun src slots run =>
        (x.attempted w SlotMap.fill stack _ src slots run).onlyShallow ht hmax
          fun path hfile hnew run items ht' => ih path hfile hnew run items ht'
      skip := fun run sources => .of_errors_eq (run.like_skip sources).errors
      release := fun run items => .of_errors_eq (run.like_release items).errors }

/-! ### Documents -/

variable {document markup : String}

/-- A document without a depth error is processed alike with every greater depth. -/
theorem process_eq_of_le {d d' : Int} (hd : d ≤ d')
    (hg : NeverDeep ((x.withDepth d).process w document markup).2) :
    (x.withDepth d').process w document markup = (x.withDepth d).process w document markup := by
  cases hp : Markup.parse markup with
  | error f => simp only [process, processBy, hp]
  | ok items =>
    rw [snd_process_of_parse hp] at hg
    rw [process_of_parse hp, process_of_parse hp, expand_eq_of_le hd hg]

/-- A document is processed without a depth error if the depth is greater than the number of readable
files. -/
theorem neverDeep_process (hmax : ((x.fragments.readable w).card : Int) < x.maxDepth) :
    NeverDeep (x.process w document markup).2 := by
  cases hp : Markup.parse markup with
  | error f =>
    simp only [process, processBy, hp]
    exact fun m hm => by cases hm
  | ok items =>
    rw [snd_process_of_parse hp]
    intro m hm
    exact (onlyShallow_expand (Trail.nil x w) hmax (opening document) items m hm).resolve_left
      List.not_mem_nil

/-- **The greatest depth is a cut-off.**

· A document that is processed without a depth error is processed alike with every greater depth: the
markup, the report and the run as a whole are the same.

· With a depth greater than the number of readable files there is no depth error, and the result does not
depend on the depth. -/
theorem process_depth (x : Expander) (w : FileTree) (document markup : String) :
    (∀ d d' : Int, d ≤ d' →
      (∀ m ∈ ((x.withDepth d).process w document markup).2.report.errors, ¬IsDepthError m) →
      (x.withDepth d').process w document markup = (x.withDepth d).process w document markup) ∧
    (∀ d : Int, ((x.fragments.readable w).card : Int) < d →
      ∀ m ∈ ((x.withDepth d).process w document markup).2.report.errors, ¬IsDepthError m) ∧
    ∀ d d' : Int, ((x.fragments.readable w).card : Int) < d → ((x.fragments.readable w).card : Int) < d' →
      (x.withDepth d').process w document markup = (x.withDepth d).process w document markup := by
  have never : ∀ d : Int, ((x.fragments.readable w).card : Int) < d →
      NeverDeep ((x.withDepth d).process w document markup).2 := fun d hd => neverDeep_process hd
  refine ⟨fun d d' hd hg => process_eq_of_le hd hg, never, fun d d' hd hd' => ?_⟩
  rcases le_total d d' with hle | hle
  · exact process_eq_of_le hle (never d hd)
  · exact (process_eq_of_le hle (never d' hd')).symm

/-- The example has two readable files. Depth 1 is enough for it, 0 is not, and from 3 on the depth does not
matter. -/
theorem sample_depth :
    ((sampleExpander.withDepth 1).process sampleFiles "a.html" sampleMarkup).2.report.errors = [] ∧
    (sampleExpander.withDepth 7).process sampleFiles "a.html" sampleMarkup =
      (sampleExpander.withDepth 1).process sampleFiles "a.html" sampleMarkup ∧
    ((sampleExpander.withDepth 0).process sampleFiles "a.html" sampleMarkup).2.report.errors =
      ["Include depth 1 exceeds max_depth=0: /src/b"] ∧
    (sampleExpander.fragments.readable sampleFiles).card = 2 ∧
    (∀ m ∈ ((sampleExpander.withDepth 3).process sampleFiles "a.html" sampleMarkup).2.report.errors,
      ¬IsDepthError m) ∧
    (sampleExpander.withDepth 9).process sampleFiles "a.html" sampleMarkup =
      (sampleExpander.withDepth 3).process sampleFiles "a.html" sampleMarkup := by
  have hone : ((sampleExpander.withDepth 1).process sampleFiles "a.html" sampleMarkup).2.report.errors =
      [] := by decide +kernel
  have hcard : (sampleExpander.fragments.readable sampleFiles).card = 2 := by decide +kernel
  obtain ⟨greater, none, alike⟩ := process_depth sampleExpander sampleFiles "a.html" sampleMarkup
  refine ⟨hone, greater 1 7 (by decide) ?_, by decide +kernel, hcard, none 3 ?_, alike 3 9 ?_ ?_⟩
  · rw [hone]
    exact fun m hm => by cases hm
  all_goals
    rw [hcard]
    decide

end Expander
end PageComposer
