/-
# What an expansion makes of a document

An expansion announces a document and performs its directives; each fragment that is entered is expanded
in turn (`Expander.expand_eq`). So it goes on with its run (`expand_extends`), and what becomes of the
document follows from the outcomes of the attempts (`performed_expand`). Whatever happens, a document
without placeholders stays without (`closed_expand`): what comes from files has had them filled.
-/

import Mathlib.Control.Monad.Basic
import PageComposer.Proofs.Document.Substitution
import PageComposer.Proofs.Expansion.Announced
import PageComposer.Proofs.Markup.Fresh

namespace PageComposer

namespace Performed

variable {T : String → SlotMap → Outcome → Prop} {items items' : List Content}

/-- If fragments hold no placeholder, a document without placeholders stays without. -/
theorem closed (hT : ∀ src slots f, T src slots (.resolved f) → Content.closed false f = true)
    (hp : Performed T items items') {binding : Bool} (hc : Content.closed binding items = true) :
    Content.closed binding items' = true := by
  induction hp generalizing binding with
  | nil => rfl
  | text s _ ih => simpa using ih (by simpa using hc)
  | kept hd _ _ ihc ih | aborted hd ht _ _ ihc ih | failed hd ht _ _ ihc ih =>
    simp only [Content.closed_node, Bool.and_eq_true] at hc
    simp [hc.1.1, ihc hc.1.2, ih hc.2]
  | resolved hd ht _ _ ihc ih =>
    simp only [Content.closed_node, Bool.and_eq_true] at hc
    simp [hT _ _ _ ht, ih hc.2]

end Performed

namespace Expander

variable (x : Expander) (w : FileTree)

/-- How an expansion in the fragments of `stack` enters one more. -/
abbrev descent (stack : List Path) : Descent w stack :=
  fun path _ _ run items => x.expand w (stack ++ [path]) run items

/-- **An expansion announces a document, then performs its directives.** -/
theorem expand_eq (stack : List Path) (run : Run) (items : List Content) :
    x.expand w stack run items =
      Attempt.perform (x.attempt w SlotMap.fill stack (x.descent w stack)) (run.announce items).2
        (Content.announced items) := by
  rw [expand]
  simp only [Run.announce_eq]

/-- An expansion goes on with its run. -/
theorem expand_extends (stack : List Path) (run : Run) (items : List Content) :
    run.Extends (x.expand w stack run items).2 := by
  induction stack, run, items using Expander.expand.induct w with
  | case1 stack run items ih =>
    rw [expand_eq]
    exact (run.extends_announce items).trans ((Attempt.respects_extends fun src slots run =>
      (x.attempted w SlotMap.fill stack (x.descent w stack) src slots run).extends ih).perform _ _)

theorem respects_extends (stack : List Path) :
    (x.attempt w SlotMap.fill stack (x.descent w stack)).Respects Run.Extends :=
  Attempt.respects_extends fun src slots run =>
    (x.attempted w SlotMap.fill stack (x.descent w stack) src slots run).extends
      fun path _ _ run items => x.expand_extends w (stack ++ [path]) run items

/-- What was loaded for a fragment is known when that has been expanded. -/
theorem mem_loads_expand (stack : List Path) (run : Run) (l : Load) (names : List (Option String))
    (items : List Content) : l ∈ (x.expand w stack ((run.load l).resolved names) items).2.loads := by
  refine (x.expand_extends w stack _ items).loads.subset ?_
  rw [(Run.like_resolved _ names).loads]
  exact List.mem_cons_self ..

/-- An expansion goes on from what has been announced. -/
theorem announce_extends_expand (stack : List Path) (run : Run) (items : List Content) :
    (run.announce items).2.Extends (x.expand w stack run items).2 := by
  rw [expand_eq]
  exact (x.respects_extends w stack).perform _ _

variable {x w}

/-- **What an expansion makes of a document.**  `T` has to allow the outcome of each attempt that leaves a
good run, and a run must not become good again. -/
theorem performed_expand (Good : Run → Prop)
    (hG : ∀ {run run' : Run}, run.Extends run' → Good run' → Good run)
    {T : String → SlotMap → Outcome → Prop} {stack : List Path}
    (hT : ∀ {src slots run o run'}, Attempted x w SlotMap.fill stack (x.descent w stack) src slots run
      o run' → Good run' → T src slots o) {run : Run} {items : List Content}
    (hgood : Good (x.expand w stack run items).2) :
    Performed T (Content.announced items) (x.expand w stack run items).1 := by
  rw [expand_eq] at hgood ⊢
  exact Attempt.performed_perform ((x.respects_extends w stack).good hG)
    (fun src slots run hg => hT (x.attempted w SlotMap.fill stack _ src slots run) hg) _ _ hgood

/-- **A document without placeholders stays without.** -/
theorem closed_expand (stack : List Path) (run : Run) {items : List Content} {binding : Bool}
    (hc : Content.closed binding items = true) :
    Content.closed binding (x.expand w stack run items).1 = true := by
  have hp : Performed (fun _ _ o => ∀ f, o = .resolved f → Content.closed false f = true)
      (Content.announced items) (x.expand w stack run items).1 := by
    refine performed_expand (fun _ => True) (fun _ => id) (fun ha _ => ?_) trivial
    cases ha with
    | entered hadm hread hp hfile hnew hr ho =>
      intro f hf
      obtain rfl := Outcome.resolved.inj hf
      rw [hr]
      exact closed_expand _ _ (SlotMap.closed_fill _ _)
    | _ => exact fun f hf => by cases hf
  exact hp.closed (fun _ _ f ht => ht f rfl) (by simpa using hc)
termination_by w.unvisited stack
decreasing_by exact FileTree.unvisited_lt hfile hnew

/-- A fragment that resolves a directive holds no placeholder. -/
theorem Attempted.closed {stack : List Path} {src : String} {slots : SlotMap} {run run' : Run}
    {o : Outcome} {f : List Content}
    (h : Attempted x w SlotMap.fill stack (x.descent w stack) src slots run o run')
    (hf : o = .resolved f) : Content.closed false f = true := by
  cases h with
  | entered ha hread hp hfile hnew hr ho =>
    obtain rfl := Outcome.resolved.inj hf
    rw [hr]
    exact closed_expand _ _ (SlotMap.closed_fill _ _)
  | _ => cases hf

/-! ### An example -/

/-! ### Documents -/

/-- The run of a document before its expansion. -/
abbrev opening (document : String) : Run := { report := { document := document } }

section

variable {document markup : String} {items : List Content}

/-- A document that is read is expanded, and rendered unless that has ended. -/
theorem process_of_parse (hp : Markup.parse markup = .ok items) :
    x.process w document markup =
      if (x.expand w [] (opening document) items).2.isOver then
        (none, (x.expand w [] (opening document) items).2)
      else (some (Markup.render (x.expand w [] (opening document) items).1),
        (x.expand w [] (opening document) items).2) := by
  rw [process, processBy, hp]

theorem snd_process_of_parse (hp : Markup.parse markup = .ok items) :
    (x.process w document markup).2 = (x.expand w [] (opening document) items).2 := by
  rw [process_of_parse hp]
  split <;> rfl

theorem fst_process_eq_none_iff (hp : Markup.parse markup = .ok items) :
    (x.process w document markup).1 = none ↔
      (x.expand w [] (opening document) items).2.isOver = true := by
  rw [process_of_parse hp]
  split <;> simp_all

end

/-- A page that includes a fragment with a slot. -/
def sampleMarkup : String := "<include src=\"b\"><yield name=\"x\">hi</yield></include>"

/-- The files of a project with the page and its fragment. -/
def sampleFiles : FileTree :=
  { FileTree.ofEntries [(["src"], .directory), (["src", "pages"], .directory),
      (["src", "pages", "a.html"], .file ⟨sampleMarkup.toUTF8.toList, 0, 0⟩),
      (["src", "b"], .file ⟨"<b><yield name=\"x\"></yield></b>".toUTF8.toList, 0, 1⟩)] with fresh := 2 }

def sampleExpander : Expander where
  fragments := { root := ⟨"/", ["src"]⟩ }

/-- The page as it is read. -/
def sampleDocument : List Content :=
  [.node { tag := some "include", attrs := [("src", .text "b")] }
    [.node { tag := some "yield", attrs := [("name", .text "x")] } [.text "hi"]]]

/-- The page as it is expanded. -/
def sampleExpanded : List Content :=
  [.node { tag := none, settled := true }
    [.node { tag := some "b" } [.node { tag := none, settled := true } [.text "hi"]]]]

theorem parse_sample : Markup.parse sampleMarkup = .ok sampleDocument := by decide +kernel

theorem expand_sample : (sampleExpander.expand sampleFiles [] {} sampleDocument).1 = sampleExpanded ∧
    (sampleExpander.expand sampleFiles [] {} sampleDocument).2.isOver = false := by decide +kernel

end Expander
end PageComposer
