/-
# What a clean report means

An expansion that reports no error has resolved every directive that it met. So the only includes that it
leaves are those without a valid reference, and of these it warns; without a warning it leaves no include,
and no yield but those of the document that stood below no include (`Expander.completed_expand`).

| report | includes left | yields left |
| --- | --- | --- |
| no errors | without a valid reference | |
| no errors, no warnings | none | those of the document outside includes, in order |
-/

import PageComposer.Proofs.Expansion.Expanded

namespace PageComposer

/-- Whether a node may be left by an expansion without errors; a strict one has no warnings either. -/
def Head.MayStay (strict : Bool) (h : Head) : Prop :=
  h.isInclude = true → strict = false ∧ h.source? = none

namespace Content

/-- Every node may be left. -/
def Stays (strict : Bool) (items : List Content) : Prop := ∀ h ∈ headsAll items, h.MayStay strict

/-- Every node that has been dealt with may be left. -/
def Fair (strict : Bool) (items : List Content) : Prop :=
  ∀ h ∈ headsAll items, h.settled = true → h.MayStay strict

mutual

/-- The yields of an item that stand below no include of it. -/
def outerYieldsItem : Content → List Head
  | .text _ => []
  | .node h cs =>
    if h.isInclude then [] else if h.isYield then h :: outerYields cs else outerYields cs

/-- The yields of a content list that stand below no include of it, in document order. -/
def outerYields : List Content → List Head
  | [] => []
  | item :: rest => outerYieldsItem item ++ outerYields rest

end

@[simp] theorem outerYields_nil : outerYields [] = [] := rfl

@[simp] theorem outerYields_text (s : String) (rest : List Content) :
    outerYields (.text s :: rest) = outerYields rest := by
  simp [outerYields, outerYieldsItem]

@[simp] theorem outerYields_node (h : Head) (cs rest : List Content) :
    outerYields (.node h cs :: rest) =
      (if h.isInclude then [] else if h.isYield then h :: outerYields cs else outerYields cs) ++
        outerYields rest := rfl

theorem outerYields_announced (items : List Content) :
    outerYields (announced items) = outerYields items := by
  induction items using list_induction with
  | nil => rfl
  | text s rest ih => simpa using ih
  | node h cs rest ihc ih =>
    rw [announced_node, outerYields_node, outerYields_node, ihc, ih]
    by_cases hy : h.isYield = true
    · rw [Head.announced_of_isYield hy]
    · simp [hy]

/-- Every yield outside includes is a yield of the document. -/
theorem outerYields_sublist (items : List Content) :
    (outerYields items).Sublist ((headsAll items).filter Head.isYield) := by
  induction items using list_induction with
  | nil => exact .slnil
  | text s rest ih => simpa using ih
  | node h cs rest ihc ih =>
    rw [outerYields_node, headsAll_node, List.filter_cons, List.filter_append]
    by_cases hi : h.isInclude = true
    · simpa [hi, Head.isYield_of_isInclude hi] using ih.trans (List.sublist_append_right ..)
    · by_cases hy : h.isYield = true
      · simpa [hi, hy] using ihc.append ih
      · simpa [hi, hy] using ihc.append ih

/-- Without placeholders and without includes there are no yields. -/
theorem filter_isYield_of_closed {items : List Content} (hc : closed false items = true)
    (hs : Stays true items) : (headsAll items).filter Head.isYield = [] := by
  induction items using list_induction with
  | nil => rfl
  | text s rest ih => simpa using ih (by simpa using hc) (by simpa [Stays] using hs)
  | node h cs rest ihc ih =>
    have hi : h.isInclude = false := by
      refine Bool.eq_false_iff.2 fun hi => ?_
      cases (hs h (by simp) hi).1
    simp only [closed_node, hi, Bool.false_or, Bool.and_eq_true, Bool.not_eq_true'] at hc
    have hcs := ihc hc.1.2 fun g hg => hs g (by simp [hg])
    have hrest := ih hc.2 fun g hg => hs g (by simp [hg])
    rw [headsAll_node, List.filter_cons, List.filter_append, hcs, hrest]
    simp [hc.1.1]

end Content

/-- What an expansion that reports no errors leaves of a document: no include with a valid reference; and if
it reports no warnings either, no include at all, and no yields but those that stood below none. -/
structure Completed (items tree : List Content) (report : Report) : Prop where
  sources : ∀ h ∈ Content.headsAll tree, h.source? = none
  includes : report.warnings = [] → (∀ h ∈ Content.headsAll tree, h.isInclude = false) ∧
    (Content.headsAll tree).filter Head.isYield = Content.outerYields items

/-- A run that has not ended and has no errors; a strict one has no warnings either. -/
structure Run.Clean (strict : Bool) (run : Run) : Prop where
  goes : run.isOver = false
  errors : run.report.errors = []
  warnings : strict = true → run.report.warnings = []

/-- What goes on to a clean run is clean. -/
theorem Run.Clean.of_extends {strict : Bool} {run run' : Run} (he : run.Extends run')
    (hc : run'.Clean strict) : run.Clean strict where
  goes := he.goes hc.goes
  errors := List.prefix_nil.1 (hc.errors ▸ he.errors)
  warnings hs := List.prefix_nil.1 (hc.warnings hs ▸ he.warnings)

/-- A fragment without placeholders, whose nodes may be left if those of the slots may. -/
structure Complete (strict : Bool) (src : String) (slots : SlotMap) (o : Outcome) : Prop where
  resolved : ∃ f, o = .resolved f
  closed : ∀ f, o = .resolved f → Content.closed false f = true
  stays : ∀ f, o = .resolved f → (∀ s ∈ slots, Content.Stays strict s.2) → Content.Stays strict f

namespace Performed

variable {strict : Bool} {items items' : List Content}

theorem stays (hp : Performed (Complete strict) items items')
    (hn : ∀ h ∈ Content.headsAll items, h.directive? = none → h.MayStay strict) :
    Content.Stays strict items' := by
  have node : ∀ {h : Head} {cs rest : List Content}, h.MayStay strict → Content.Stays strict cs →
      Content.Stays strict rest → Content.Stays strict (.node h cs :: rest) := by
    intro h cs rest hh hcs hrest g hg
    simp only [Content.headsAll_node, List.mem_cons, List.mem_append] at hg
    rcases hg with rfl | hg | hg
    · exact hh
    · exact hcs g hg
    · exact hrest g hg
  induction hp with
  | nil => simp [Content.Stays]
  | text s _ ih => simpa [Content.Stays] using ih (by simpa using hn)
  | @kept h _ _ _ _ hd _ _ ihc ih =>
    exact node (hn h (by simp) hd) (ihc fun g hg => hn g (by simp [hg]))
      (ih fun g hg => hn g (by simp [hg]))
  | aborted hd ht _ _ _ _ | failed hd ht _ _ _ _ =>
    obtain ⟨f, hf⟩ := ht.resolved
    cases hf
  | resolved hd ht _ _ ihc ih =>
    have hcs := ihc fun g hg => hn g (by simp [hg])
    have hrest := ih fun g hg => hn g (by simp [hg])
    refine node (fun hi => by cases hi) (ht.stays _ rfl fun s hs g hg => ?_) hrest
    obtain ⟨h, _, hmem⟩ := Content.mem_of_binding? (SlotMap.mem_of_mem_ofChildren hs)
    exact hcs g (Content.mem_headsAll_of_mem hmem hg)

theorem filter_isYield (hp : Performed (Complete true) items items')
    (hs : Content.Stays true items') :
    (Content.headsAll items').filter Head.isYield = Content.outerYields items := by
  induction hp with
  | nil => rfl
  | text s _ ih => simpa using ih (by simpa [Content.Stays] using hs)
  | @kept h cs cs' rest rest' hd _ _ ihc ih =>
    have hi : h.isInclude = false := by
      refine Bool.eq_false_iff.2 fun hi => ?_
      cases (hs h (by simp) hi).1
    have hcs := ihc fun g hg => hs g (by simp [hg])
    have hrest := ih fun g hg => hs g (by simp [hg])
    rw [Content.headsAll_node, List.filter_cons, List.filter_append, hcs, hrest,
      Content.outerYields_node]
    by_cases hy : h.isYield = true <;> simp [hi, hy]
  | aborted hd ht _ _ _ _ | failed hd ht _ _ _ _ =>
    obtain ⟨f, hf⟩ := ht.resolved
    cases hf
  | @resolved h src f cs cs' rest rest' hd ht _ _ _ ih =>
    have hf := Content.filter_isYield_of_closed (ht.closed f rfl) fun g hg => hs g (by simp [hg])
    have hrest := ih fun g hg => hs g (by simp [hg])
    rw [Content.headsAll_node, List.filter_cons, List.filter_append, hf, hrest,
      Content.outerYields_node]
    simp [Head.isInclude_of_directive? hd]

end Performed

/-! ### Substitution -/

namespace Head

variable {strict : Bool} {h : Head}

theorem MayStay.of_not_include (hi : h.isInclude = false) : h.MayStay strict := fun hi' => by
  rw [hi] at hi'
  cases hi'

theorem MayStay.copy (hm : h.MayStay strict) : MayStay strict { h with mark := none } := hm

end Head

/-- What is filled with contents that may stay is fair. -/
theorem SlotMap.fair_fill {strict : Bool} {slots : SlotMap} {items : List Content}
    (hs : ∀ s ∈ slots, Content.Stays strict s.2) (hi : Content.Fair strict items) :
    Content.Fair strict (slots.fill items).content :=
  slots.forall_heads_fill (fun _ _ _ => .of_not_include rfl) (fun _ hp hset => (hp hset).copy) items
    (fun s hmem g hg _ => hs s hmem g hg) hi

namespace Expander

variable {x : Expander} {w : FileTree} {strict : Bool}

/-- An expansion without warnings met no include without a valid reference. -/
theorem isInvalid_of_clean {stack : List Path} {run : Run} {items : List Content}
    (clean : (x.expand w stack run items).2.Clean true) :
    ∀ h ∈ Content.headsAll items, h.isInvalid = false := by
  have hann := clean.of_extends (x.announce_extends_expand w stack run items)
  have hrun := hann.of_extends (run.extends_announce items)
  exact Run.isInvalid_of_warnings (by rw [hann.warnings rfl, hrun.warnings rfl])

/-- What a clean expansion of a fair document does not attempt may stay. -/
theorem mayStay_of_clean {stack : List Path} {run : Run} {items : List Content}
    (fair : Content.Fair strict items) (clean : (x.expand w stack run items).2.Clean strict) :
    ∀ h ∈ Content.headsAll (Content.announced items), h.directive? = none → h.MayStay strict := by
  intro h hh hd hi
  have hset := Head.settled_of_directive?_eq_none hi (Content.announced_spec items h hh) hd
  rw [Content.headsAll_announced] at hh
  obtain ⟨g, hg, rfl⟩ := List.mem_map.1 hh
  by_cases hv : g.isInvalid = true
  · cases strict with
    | false =>
      have hann : g.announced = g.settle := if_pos hv
      simp only [Head.isInvalid, Bool.and_eq_true, Option.isNone_iff_eq_none] at hv
      rw [hann]
      exact ⟨rfl, hv.2⟩
    | true =>
      rw [isInvalid_of_clean clean g hg] at hv
      cases hv
  · have hself : g.announced = g := if_neg hv
    rw [hself] at hset hi ⊢
    exact fair g hg hset hi

/-- A clean expansion has resolved every directive, and leaves of a fair document what may stay. -/
theorem stays_expand (stack : List Path) (run : Run) (items : List Content)
    (fair : Content.Fair strict items) (clean : (x.expand w stack run items).2.Clean strict) :
    Performed (Complete strict) (Content.announced items) (x.expand w stack run items).1 ∧
      Content.Stays strict (x.expand w stack run items).1 := by
  have hp : Performed (Complete strict) (Content.announced items) (x.expand w stack run items).1 := by
    refine performed_expand (Run.Clean strict) (fun he hc => hc.of_extends he)
      (fun {src slots run o run'} ha hc => ?_) clean
    cases ha with
    | ended ho | broken _ _ _ _ _ _ ho => rw [hc.goes] at ho; cases ho
    | unresolved _ | unusable _ _ _ | rejected _ _ _ => cases hc.goes
    | circular _ _ | deep _ _ _ | unreadable _ _ =>
      cases (List.append_eq_nil_iff.1 hc.errors).2
    | @entered path cs fragment hadm hread hparse hfile hnew r hr ho =>
      refine ⟨⟨_, rfl⟩, fun f hf => ?_, fun f hf hs => ?_⟩
      · obtain rfl := Outcome.resolved.inj hf
        rw [hr]
        exact closed_expand _ _ (SlotMap.closed_fill _ _)
      · obtain rfl := Outcome.resolved.inj hf
        have hfresh : Content.Fair strict fragment := fun g hg hset => by
          rw [(Markup.fresh_parse hparse g hg).1] at hset
          cases hset
        have hclean : r.2.Clean strict := hc.of_extends (Run.like_included r.2 src).extends
        rw [hr] at hclean ⊢
        exact (stays_expand _ _ _ (SlotMap.fair_fill hs hfresh) hclean).2
  exact ⟨hp, hp.stays (mayStay_of_clean fair clean)⟩
termination_by w.unvisited stack
decreasing_by exact FileTree.unvisited_lt hfile hnew

/-- **An expansion without errors is complete.**  No node of the document may have been dealt with
before; marks tell that the yields that are left are nodes of the document. -/
theorem completed_expand (stack : List Path) (run : Run) (items : List Content)
    (fresh : ∀ h ∈ Content.headsAll items, h.settled = false)
    (ends : (x.expand w stack run items).2.isOver = false)
    (errors : (x.expand w stack run items).2.report.errors = []) :
    Completed items (x.expand w stack run items).1 (x.expand w stack run items).2.report := by
  have fair : ∀ strict, Content.Fair strict items := fun strict h hh hset => by
    rw [fresh h hh] at hset
    cases hset
  refine ⟨fun h hh => ?_, fun warnings => ?_⟩
  · obtain ⟨_, hs⟩ := stays_expand stack run items (fair false) ⟨ends, errors, by simp⟩
    by_cases hi : h.isInclude = true
    · exact (hs h hh hi).2
    · simp [Head.source?, hi]
  · obtain ⟨hp, hs⟩ := stays_expand stack run items (fair true) ⟨ends, errors, fun _ => warnings⟩
    refine ⟨fun h hh => Bool.eq_false_iff.2 fun hi => ?_, ?_⟩
    · cases (hs h hh hi).1
    · rw [hp.filter_isYield hs, Content.outerYields_announced]

/-- What is processed has been read, expanded and rendered. -/
theorem process_eq_some {document markup html : String} {run : Run}
    (h : x.process w document markup = (some html, run)) :
    ∃ items tree, Markup.parse markup = .ok items ∧
      x.expand w [] { report := { document := document } } items = (tree, run) ∧
      run.isOver = false ∧ html = Markup.render tree := by
  unfold process processBy at h
  dsimp only at h
  split at h
  · cases h
  · rename_i items hp
    split at h
    · cases h
    · rename_i ho
      rw [Bool.not_eq_true] at ho
      cases h
      exact ⟨items, _, hp, rfl, ho, rfl⟩

/-- **A document that is processed without errors is complete.** -/
theorem completed_process {document markup html : String} {run : Run}
    (h : x.process w document markup = (some html, run)) (errors : run.report.errors = []) :
    ∃ items tree, Markup.parse markup = .ok items ∧ html = Markup.render tree ∧
      x.expand w [] { report := { document := document } } items = (tree, run) ∧
      Completed items tree run.report := by
  obtain ⟨items, tree, hp, hx, ho, rfl⟩ := process_eq_some h
  have hc := completed_expand (x := x) (w := w) [] { report := { document := document } } items
    (fun h hh => (Markup.fresh_parse hp h hh).1) (by rw [hx]; exact ho) (by rw [hx]; exact errors)
  rw [hx] at hc
  exact ⟨items, tree, hp, rfl, hx, hc⟩

end Expander
end PageComposer
