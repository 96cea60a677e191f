/-
# Ignored children are inert

An include shows nothing of its children but the last bindings of each name.  Without the others a document
expands to the same (`Expander.ignored_children_inert`):

| | without the ignored children |
| --- | --- |
| document | the same |
| entries of the report | less by those that the ignored children bring by themselves |
| fault | none, unless there is one anyway or in an ignored child |

What is ignored is part of the document as it was found, so includes in it are attempted all the same.
Without such includes nothing changes but the order of the entries: a name has the place of its first
binding, and so another one if that is ignored (`Expander.ignored_children_leave_traces`).
-/

import PageComposer.Proofs.Expansion.Trimmed

namespace PageComposer

/-! ### Announcing and trimming -/

namespace Head

@[simp] theorem directive?_announced (h : Head) : h.announced.directive? = h.directive? := by
  unfold announced
  split
  · rename_i hi
    simp only [isInvalid, Bool.and_eq_true, Option.isNone_iff_eq_none] at hi
    simp [directive?, settle, hi.2]
  · rfl

@[simp] theorem isCut_announced (cut : String → Bool) (h : Head) : h.announced.isCut cut = h.isCut cut := by
  rw [isCut, directive?_announced, isCut]

end Head

namespace Content

variable {cut : String → Bool}

theorem announced_eq_map (items : List Content) : announced items = items.map announcedItem := by
  induction items with
  | nil => rfl
  | cons item rest ih => rw [announced, ih, List.map_cons]

theorem binding?_announcedItem (item : Content) :
    SlotMap.binding? (announcedItem item) =
      (SlotMap.binding? item).map fun b => (b.1, b.2.map announcedItem) := by
  have h := filterMap_binding?_announced [item]
  rw [announced_eq_map, List.map_singleton] at h
  simp only [announced_eq_map] at h
  cases hb : SlotMap.binding? item <;> cases hb' : SlotMap.binding? (announcedItem item) <;>
    simp_all

theorem kept_announced (h : Head) (cs : List Content) :
    kept cut h.announced (cs.map announcedItem) = (kept cut h cs).map announcedItem := by
  rw [kept, kept, Head.isCut_announced]
  split
  · exact SlotMap.winners_map binding?_announcedItem cs
  · rfl

theorem cutOff_announced (h : Head) (cs : List Content) :
    cutOff cut h.announced (cs.map announcedItem) = (cutOff cut h cs).map announcedItem := by
  rw [cutOff, cutOff, Head.isCut_announced]
  split
  · exact SlotMap.losers_map binding?_announcedItem cs
  · rfl

theorem announcedItem_node (h : Head) (cs : List Content) :
    announcedItem (.node h cs) = .node h.announced (cs.map announcedItem) := by
  rw [announcedItem, announced_eq_map]

/-- Trimming and announcing can be done in any order. -/
theorem trim_announcedItem (item : Content) :
    trim cut (announcedItem item) = announcedItem (trim cut item) := by
  induction item using item_induction with
  | text s => simp [announcedItem]
  | node h cs ih =>
    rw [announcedItem_node, trim_node, kept_announced, trim_node, announcedItem_node, List.map_map,
      List.map_map]
    exact congrArg _ (List.map_congr_left fun c hc => ih c (mem_of_mem_kept hc))

theorem trimmings_announcedItem (item : Content) :
    trimmings cut (announcedItem item) = (trimmings cut item).map announcedItem := by
  induction item using item_induction with
  | text s => simp [announcedItem]
  | node h cs ih =>
    rw [announcedItem_node, trimmings_node, kept_announced, cutOff_announced, trimmings_node, List.map_append,
      List.flatMap_map, List.map_flatMap]
    congr 1
    simp only [List.flatMap_def]
    exact congrArg _ (List.map_congr_left fun c hc => ih c (mem_of_mem_kept hc))

theorem nodesAll_announced (items : List Content) :
    nodesAll (items.map announcedItem) = (nodesAll items).map announcedItem := by
  induction items using list_induction with
  | nil => rfl
  | text s rest ih => simpa [announcedItem, nodesAll, nodes] using ih
  | node h cs rest ihc ih =>
    rw [List.map_cons, announcedItem_node, nodesAll, nodesAll, nodes, nodes, ihc, ih, List.cons_append,
      List.cons_append, List.map_cons, List.map_append, announcedItem_node]

theorem InOrder.announced {item : Content} (ho : InOrder cut item) : InOrder cut (announcedItem item) := by
  intro g ds hm hcut
  have hnodes := nodesAll_announced [item]
  simp only [List.map_singleton, nodesAll, List.append_nil] at hnodes
  rw [hnodes] at hm
  obtain ⟨n, hn, heq⟩ := List.mem_map.1 hm
  cases n with
  | text s => cases heq
  | node h cs =>
    rw [announcedItem_node] at heq
    obtain ⟨rfl, rfl⟩ := Content.node.inj heq
    rw [Head.isCut_announced] at hcut
    have hnames := ho h cs hn hcut
    rw [SlotMap.winners_map binding?_announcedItem, SlotMap.ofChildren_map binding?_announcedItem,
      SlotMap.ofChildren_map binding?_announcedItem]
    simpa [SlotMap.names, Function.comp_def] using hnames

/-! ### What is complained about -/

theorem complaints_cons (item : Content) (rest : List Content) :
    complaints (item :: rest) = complaints [item] ++ complaints rest := by
  rw [complaints, headsAll_cons, List.filterMap_append]
  rfl

theorem complaints_append (items more : List Content) :
    complaints (items ++ more) = complaints items ++ complaints more := by
  induction items with
  | nil => rfl
  | cons item rest ih =>
    rw [List.cons_append, complaints_cons, ih, complaints_cons item rest, List.append_assoc]

theorem complaints_node (h : Head) (cs : List Content) :
    complaints [.node h cs] = h.complaint?.toList ++ complaints cs := by
  rw [complaints, headsAll_node, headsAll_nil, List.append_nil, List.filterMap_cons]
  cases h.complaint? <;> rfl

theorem complaints_eq_flatMap (items : List Content) :
    complaints items = items.flatMap fun item => complaints [item] := by
  induction items with
  | nil => rfl
  | cons item rest ih => rw [complaints_cons, ih, List.flatMap_cons]

theorem kept_append_cutOff_perm (h : Head) (cs : List Content) :
    (kept cut h cs ++ cutOff cut h cs).Perm cs := by
  rw [kept, cutOff]
  split
  · exact SlotMap.winners_append_losers_perm cs
  · rw [List.append_nil]

/-- The complaints about a list are those about the trimmed items and those about their trimmings, if that is
so for each item. -/
theorem complaints_trim_list {items : List Content}
    (h : ∀ c ∈ items,
      (complaints [c] : Multiset String) = complaints [c.trim cut] + complaints (c.trimmings cut)) :
    (complaints items : Multiset String) =
      complaints (items.map (trim cut)) + complaints (items.flatMap (trimmings cut)) := by
  induction items with
  | nil => rfl
  | cons c rest ih =>
    obtain ⟨hc, hrest⟩ := List.forall_mem_cons.1 h
    rw [complaints_cons, List.map_cons, complaints_cons (c.trim cut), List.flatMap_cons, complaints_append,
      ← Multiset.coe_add, ← Multiset.coe_add, ← Multiset.coe_add, hc, ih hrest]
    exact add_add_add_comm ..

/-- **Whatever is complained about** is in the trimmed item or in its trimmings. -/
theorem complaints_trim (item : Content) :
    (complaints [item] : Multiset String) = complaints [item.trim cut] + complaints (item.trimmings cut) := by
  induction item using item_induction with
  | text s => simp [complaints]
  | node h cs ih =>
    have hkept := complaints_trim_list fun c (hc : c ∈ kept cut h cs) => ih c (mem_of_mem_kept hc)
    have hcs : (complaints cs : Multiset String) =
        complaints (kept cut h cs) + complaints (cutOff cut h cs) := by
      rw [Multiset.coe_add, ← complaints_append, Multiset.coe_eq_coe, complaints_eq_flatMap,
        complaints_eq_flatMap (_ ++ _)]
      exact ((kept_append_cutOff_perm h cs).flatMap_right _).symm
    rw [trim_node, trimmings_node, complaints_node, complaints_node, complaints_append, ← Multiset.coe_add,
      ← Multiset.coe_add, ← Multiset.coe_add, hcs, hkept]
    ac_rfl

theorem complaints_sublist {items items' : List Content} (h : items.Sublist items') :
    (complaints items).Sublist (complaints items') := by
  rw [complaints_eq_flatMap, complaints_eq_flatMap items']
  exact h.flatMap fun c => complaints [c]

theorem complaints_trim_list_sublist {items : List Content}
    (h : ∀ c ∈ items, (complaints [c.trim cut]).Sublist (complaints [c])) :
    (complaints (items.map (trim cut))).Sublist (complaints items) := by
  rw [complaints_eq_flatMap, complaints_eq_flatMap items, List.flatMap_map]
  exact List.Sublist.flatMap_right items h

/-- What the complaints about a trimmed item are about stands in the order in which it did before. -/
theorem complaints_trim_sublist (item : Content) :
    (complaints [item.trim cut]).Sublist (complaints [item]) := by
  induction item using item_induction with
  | text s => simp
  | node h cs ih =>
    have hkept : (kept cut h cs).Sublist cs := by
      rw [kept]
      split
      · exact SlotMap.winners_sublist cs
      · exact .refl cs
    rw [trim_node, complaints_node, complaints_node]
    have htrimmed := complaints_trim_list_sublist fun c (hc : c ∈ kept cut h cs) => ih c (mem_of_mem_kept hc)
    exact .append_left (htrimmed.trans (complaints_sublist hkept)) _

theorem Settled.of_mem {item : Content} {items : List Content} (hs : Settled items) (hm : item ∈ items) :
    Settled [item] := by
  induction items with
  | nil => cases hm
  | cons first rest ih =>
    rw [Settled, forall_headsAll_cons] at hs
    rcases List.mem_cons.1 hm with rfl | hm
    · exact hs.1
    · exact ih hs.2 hm

/-- Where nothing is complained about in the trimmings, the complaints stay as they are. -/
theorem complaints_map_trim {items : List Content}
    (hoff : complaints (items.flatMap (trimmings cut)) = []) :
    complaints (items.map (trim cut)) = complaints items := by
  have hsum : (complaints items : Multiset String) =
      complaints (items.map (trim cut)) + complaints (items.flatMap (trimmings cut)) :=
    complaints_trim_list fun c _ => complaints_trim c
  refine (complaints_trim_list_sublist fun c _ => complaints_trim_sublist c).eq_of_length ?_
  rw [hoff, Multiset.coe_nil, add_zero] at hsum
  exact (Multiset.coe_eq_coe.1 hsum).length_eq.symm

end Content

/-! ### Expansions in terms of what they add -/

namespace Expander

variable {x : Expander} {w : FileTree}

/-- Whether nothing refuses an include in the fragments of `stack`.  Where an expansion has not ended, these are
the includes that have been resolved (`Expander.treated_expand`). -/
def enters (x : Expander) (w : FileTree) (stack : List Path) (src : String) : Bool :=
  (x.refusal? w stack src).isNone

/-- An include that is refused fails, whatever its slots. -/
theorem attempt_of_refusal {fill : SlotMap → List Content → Filled} {stack : List Path}
    {descend : Descent w stack} {src message : String} {run : Run} (slots : SlotMap) (ho : run.isOver = false)
    (hr : x.refusal? w stack src = some message) :
    x.attempt w fill stack descend src slots run = (.failed, run.fail message) := by
  refine Attempted.eq ho ?_
  rw [refusal?] at hr
  split at hr
  · cases hr
  · rename_i path hpath
    split at hr
    · rename_i hin
      exact Option.some.inj hr ▸ .circular hpath hin
    · rename_i hnew
      split at hr
      · rename_i hdeep
        exact Option.some.inj hr ▸ .deep hpath hnew hdeep
      · rename_i hdeep
        split at hr
        · rename_i p reason hread
          exact Option.some.inj hr ▸ .unreadable ⟨hpath, hnew, Int.not_le.1 hdeep⟩ hread
        · cases hr

/-- An include that nothing refuses does not fail. -/
theorem Attempted.ne_failed {fill : SlotMap → List Content → Filled} {stack : List Path}
    {descend : Descent w stack} {src : String} {slots : SlotMap} {run run' : Run} {o : Outcome}
    (hr : x.refusal? w stack src = none) (h : Attempted x w fill stack descend src slots run o run') :
    o ≠ .failed := by
  cases h with
  | circular hpath hin => simp [refusal?, hpath, hin] at hr
  | deep hpath hnew hdeep => simp only [refusal?, hpath, hnew, hdeep, if_true, if_false, reduceCtorEq] at hr
  | unreadable ha hread => rw [refusal?_of_admits ha, hread] at hr; cases hr
  | _ => simp

theorem sorts (x : Expander) (w : FileTree) (stack : List Path) :
    (x.attempt w SlotMap.fill stack (x.descent w stack)).Sorts (x.enters w stack) where
  entered src slots hc := (x.attempted w SlotMap.fill stack (x.descent w stack) src slots {}).ne_failed
    (Option.isNone_iff_eq_none.1 hc)
  refused src slots slots' hc := by
    obtain ⟨message, hr⟩ := Option.isSome_iff_exists.1 (Option.isNone_eq_false_iff.1 hc)
    rw [attempt_of_refusal slots rfl hr, attempt_of_refusal slots' rfl hr]

section

variable {M : Type} [AddMonoid M] {μ : Report.Measure M}

/-- **What an expansion adds**: its complaints, and what performing the directives adds. -/
theorem cost_expand (stack : List Path) (run : Run) (items : List Content) :
    (x.expand w stack run items).2.cost μ =
      run.cost μ + (μ.of { warnings := Content.complaints items } : M) +
        (x.attempt w SlotMap.fill stack (x.descent w stack)).gain μ (Content.announced items) := by
  rw [expand_eq, Attempt.cost_perform (settling x w stack) (framed x w stack)]
  congr 1
  cases ho : run.isOver with
  | true =>
    rw [Run.cost_of_isOver ho, Run.cost_of_isOver ((run.isOver_announce items).trans ho), WithTop.top_add]
  | false =>
    rw [Run.cost_of_goes ho, Run.cost_of_goes ((run.isOver_announce items).trans ho), Run.report_announce,
      μ.of_warnings, WithTop.coe_add]

theorem expand_of_goes {stack : List Path} {run : Run} {items : List Content}
    (hgoes : (x.expand w stack run items).2.isOver = false) :
    (x.expand w stack run items).1 =
      (x.attempt w SlotMap.fill stack (x.descent w stack)).done (Content.announced items) := by
  rw [expand_eq] at hgoes ⊢
  exact Attempt.perform_of_goes (settling x w stack) (framed (μ := Report.tally) x w stack) hgoes

end

/-- Without pending includes nothing happens. -/
theorem expand_of_settled {stack : List Path} {items : List Content} (hs : Content.Settled items)
    (run : Run) : x.expand w stack run items = (items, run) := by
  rw [expand_eq, run.announce_eq_self hs.isInvalid_eq_false, Content.announced_eq_self hs.isInvalid_eq_false]
  exact Attempt.perform_eq_self _ run hs.directive?_eq_none

/-! ### Trimmed documents -/

section

variable {stack : List Path} {items : List Content}

theorem map_trim_announced {cut : String → Bool} (items : List Content) :
    (Content.announced items).map (Content.trim cut) = Content.announced (items.map (Content.trim cut)) := by
  rw [Content.announced_eq_map, Content.announced_eq_map, List.map_map, List.map_map]
  exact List.map_congr_left fun c _ => Content.trim_announcedItem c

/-- Trimmed after they have been announced, items add what they add but for their trimmings, and become the
same. -/
theorem trims_announced (x : Expander) (w : FileTree) (stack : List Path) (items : List Content) :
    Attempt.Trims Report.tally (x.attempt w SlotMap.fill stack (x.descent w stack)) (Content.announced items)
      (Content.announced (items.map (Content.trim (x.enters w stack))))
      (Content.announced (items.flatMap (Content.trimmings (x.enters w stack)))) := by
  have hA := settling x w stack
  have hF := framed (μ := Report.tally) x w stack
  have h := Attempt.trims_list hA hF fun c (_ : c ∈ Content.announced items) =>
    Attempt.trims_item hA hF (sorts x w stack) c
  have hoff : (Content.announced items).flatMap (Content.trimmings (x.enters w stack)) =
      Content.announced (items.flatMap (Content.trimmings (x.enters w stack))) := by
    rw [Content.announced_eq_map, Content.announced_eq_map, List.flatMap_map, List.map_flatMap]
    simp only [Content.trimmings_announcedItem]
  rwa [map_trim_announced, hoff] at h

/-- **A trimmed document adds** what the whole one adds, but for what the trimmings add by themselves. -/
theorem cost_expand_trim (run : Run) :
    (x.expand w stack run items).2.cost Report.tally =
      (x.expand w stack run (items.map (Content.trim (x.enters w stack)))).2.cost Report.tally +
        (x.expand w stack {} (items.flatMap (Content.trimmings (x.enters w stack)))).2.cost Report.tally := by
  have hnew : ({} : Run).cost Report.tally = 0 := by simp [Run.cost, Run.isOver, Report.tally]
  have hcomplaints : Report.tally.of { warnings := Content.complaints items } =
      Report.tally.of { warnings := Content.complaints (items.map (Content.trim (x.enters w stack))) } +
        Report.tally.of
          { warnings := Content.complaints (items.flatMap (Content.trimmings (x.enters w stack))) } := by
    have hsum := Content.complaints_trim_list fun c (_ : c ∈ items) =>
      @Content.complaints_trim (x.enters w stack) c
    simp [Report.tally, hsum]
  have hgain := (trims_announced x w stack items).gain
  rw [cost_expand, cost_expand, cost_expand stack {}, hnew, zero_add, hcomplaints, hgain, WithTop.coe_add]
  ac_rfl

/-- It becomes the same. -/
theorem fst_expand_trim {run : Run} (hgoes : (x.expand w stack run items).2.isOver = false) :
    (x.expand w stack run items).1 =
      (x.expand w stack run (items.map (Content.trim (x.enters w stack)))).1 := by
  have hcost : (x.expand w stack run items).2.cost Report.tally ≠ ⊤ := by
    rw [Run.cost_of_goes hgoes]
    exact WithTop.coe_ne_top
  have hcost' := hcost
  rw [cost_expand, WithTop.add_ne_top] at hcost
  rw [cost_expand_trim, WithTop.add_ne_top, ne_eq, Run.cost_eq_top_iff, Bool.not_eq_true] at hcost'
  rw [expand_of_goes hgoes, expand_of_goes hcost'.1, (trims_announced x w stack items).done hcost.2]

/-- **In order**, if the trimmings hold no pending include and the names stay in order. -/
theorem cost_expand_trim_inOrder (run : Run)
    (hoff : Content.Settled (items.flatMap (Content.trimmings (x.enters w stack))))
    (horder : ∀ item ∈ items, Content.InOrder (x.enters w stack) item) :
    (x.expand w stack run items).2.cost Report.inOrder =
      (x.expand w stack run (items.map (Content.trim (x.enters w stack)))).2.cost Report.inOrder := by
  have hA := settling x w stack
  have hF := framed (μ := Report.inOrder) x w stack
  have hbecomes := fun c : Content =>
    (Attempt.trims_item hA (framed (μ := Report.tally) x w stack) (sorts x w stack) c).becomes
  have hnothing : ∀ item ∈ items, ∀ c ∈ (Content.announcedItem item).trimmings (x.enters w stack),
      (x.attempt w SlotMap.fill stack (x.descent w stack)).gain Report.inOrder [c] = 0 := by
    intro item hitem c hc
    rw [Content.trimmings_announcedItem] at hc
    obtain ⟨d, hd, rfl⟩ := List.mem_map.1 hc
    have hs : Content.Settled [d] := hoff.of_mem (List.mem_flatMap.2 ⟨item, hitem, hd⟩)
    have hsame : [Content.announcedItem d] = [d] := Content.announced_eq_self hs.isInvalid_eq_false
    rw [hsame, Attempt.gain, Attempt.perform_eq_self _ _ hs.directive?_eq_none]
    rfl
  have hitems : ∀ c ∈ Content.announced items,
      (x.attempt w SlotMap.fill stack (x.descent w stack)).gain Report.inOrder [c] =
        (x.attempt w SlotMap.fill stack (x.descent w stack)).gain Report.inOrder
          [c.trim (x.enters w stack)] := by
    intro c hc
    rw [Content.announced_eq_map] at hc
    obtain ⟨item, hitem, rfl⟩ := List.mem_map.1 hc
    exact Attempt.gain_trim_inOrder hA hF (sorts x w stack) hbecomes _ (hnothing item hitem)
      (horder item hitem).announced
  have hcomplaints := Content.complaints_map_trim (Content.complaints_eq_nil_iff.2 hoff.isInvalid_eq_false)
  rw [cost_expand, cost_expand, hcomplaints, Attempt.gain_map_trim hA hF hitems, map_trim_announced]

end

end Expander

/-! ### Reports -/

namespace Report

/-- The report with the entries of another one added. -/
def plus (r s : Report) : Report :=
  { r with
    includes := r.includes ++ s.includes
    placeholders := r.placeholders + s.placeholders
    warnings := r.warnings ++ s.warnings
    errors := r.errors ++ s.errors }

/-- Reports of as many placeholders whose lists of entries are related. -/
structure Agree (R : List String → List String → Prop) (r s : Report) : Prop where
  includes : R r.includes s.includes
  placeholders : r.placeholders = s.placeholders
  warnings : R r.warnings s.warnings
  errors : R r.errors s.errors

theorem plus_new (r : Report) : r.plus {} = r := by simp [plus]

theorem tally_plus (r s : Report) : tally.of (r.plus s) = tally.of r + tally.of s := by
  simp [tally, plus, ← Multiset.coe_add]

theorem agree_of_tally {r s : Report} (h : tally.of r = tally.of s) : r.Agree List.Perm s := by
  simp only [tally, Prod.mk.injEq, Multiset.coe_eq_coe] at h
  exact ⟨h.1, h.2.2.2, h.2.1, h.2.2.1⟩

theorem agree_of_inOrder {r s : Report} (h : inOrder.of r = inOrder.of s) : r.Agree Eq s := by
  simp only [inOrder, Prod.mk.injEq, EmbeddingLike.apply_eq_iff_eq] at h
  exact ⟨h.1, h.2.2.2, h.2.1, h.2.2.1⟩

end Report

namespace Expander

section

variable {x : Expander} {w : FileTree} {stack : List Path} {items : List Content} {run : Run}

/-- An expansion ends if that of the trimmed document does, or that of the trimmings. -/
theorem isOver_expand_trim :
    (x.expand w stack run items).2.isOver = true ↔
      (x.expand w stack run (items.map (Content.trim (x.enters w stack)))).2.isOver = true ∨
        (x.expand w stack {} (items.flatMap (Content.trimmings (x.enters w stack)))).2.isOver = true := by
  simp only [← Run.cost_eq_top_iff (μ := Report.tally)]
  rw [cost_expand_trim, WithTop.add_eq_top]

/-- If it does not, its report has the entries of both. -/
theorem report_expand_trim (hgoes : (x.expand w stack run items).2.isOver = false) :
    (x.expand w stack run items).2.report.Agree List.Perm
      ((x.expand w stack run (items.map (Content.trim (x.enters w stack)))).2.report.plus
        (x.expand w stack {} (items.flatMap (Content.trimmings (x.enters w stack)))).2.report) := by
  have hparts := isOver_expand_trim.not.1 (Bool.eq_false_iff.1 hgoes)
  rw [not_or, Bool.not_eq_true, Bool.not_eq_true] at hparts
  have hcost := Run.cost_of_goes (μ := Report.tally) hgoes
  rw [cost_expand_trim, Run.cost_of_goes hparts.1, Run.cost_of_goes hparts.2, ← WithTop.coe_add,
    ← Report.tally_plus] at hcost
  exact Report.agree_of_tally (WithTop.coe_injective hcost.symm)

/-- They are in order, if the trimmings hold no pending include and the names stay in order. -/
theorem report_expand_trim_inOrder (hgoes : (x.expand w stack run items).2.isOver = false)
    (hoff : Content.Settled (items.flatMap (Content.trimmings (x.enters w stack))))
    (horder : ∀ item ∈ items, Content.InOrder (x.enters w stack) item) :
    (x.expand w stack run items).2.report.Agree Eq
      (x.expand w stack run (items.map (Content.trim (x.enters w stack)))).2.report := by
  have hparts := isOver_expand_trim.not.1 (Bool.eq_false_iff.1 hgoes)
  rw [not_or, Bool.not_eq_true] at hparts
  have hcost := cost_expand_trim_inOrder run hoff horder
  rw [Run.cost_of_goes hgoes, Run.cost_of_goes hparts.1] at hcost
  exact Report.agree_of_inOrder (WithTop.coe_injective hcost)

end

/-! ### Documents -/

/-- **Ignored children are inert.**  Without what the includes of a document ignore, unless these are refused,
the document is processed to the same markup, if to any, and its report lacks what the ignored children bring
by themselves; it is processed to none if the one without them is, or expanding them ends.  Where they hold no
pending include they bring nothing, and the entries stay in order if the names do. -/
theorem ignored_children_inert (x : Expander) (w : FileTree) (document : String) {markup markup' : String}
    {items : List Content} (hp : Markup.parse markup = .ok items)
    (hp' : Markup.parse markup' = .ok (items.map (Content.trim (x.enters w [])))) :
    let off := items.flatMap (Content.trimmings (x.enters w []))
    let whole := x.process w document markup
    let trimmed := x.process w document markup'
    let side := x.expand w [] {} off
    (whole.1 = none ↔ trimmed.1 = none ∨ side.2.isOver = true) ∧
      (whole.1 ≠ none → whole.1 = trimmed.1 ∧
        whole.2.report.Agree List.Perm (trimmed.2.report.plus side.2.report)) ∧
      (Content.Settled off → whole.1 = trimmed.1 ∧
        (whole.1 ≠ none → whole.2.report.Agree List.Perm trimmed.2.report ∧
          ((∀ item ∈ items, Content.InOrder (x.enters w []) item) →
            whole.2.report.Agree Eq trimmed.2.report))) := by
  intro off whole trimmed side
  have hends : whole.1 = none ↔ trimmed.1 = none ∨ side.2.isOver = true := by
    rw [fst_process_eq_none_iff hp, fst_process_eq_none_iff hp']
    exact isOver_expand_trim
  have hgoes : whole.1 ≠ none → (x.expand w [] (opening document) items).2.isOver = false := by
    rw [ne_eq, fst_process_eq_none_iff hp, Bool.not_eq_true]
    exact id
  have hmarkup : whole.1 ≠ none → whole.1 = trimmed.1 := fun hsome => by
    have hgoes' := isOver_expand_trim.not.1 (Bool.eq_false_iff.1 (hgoes hsome))
    rw [not_or] at hgoes'
    simp only [whole, trimmed]
    rw [process_of_parse hp, process_of_parse hp', if_neg (by simp [hgoes hsome]), if_neg hgoes'.1,
      fst_expand_trim (hgoes hsome)]
  have hreport : whole.1 ≠ none → whole.2.report.Agree List.Perm (trimmed.2.report.plus side.2.report) :=
    fun hsome => by
      rw [snd_process_of_parse hp, snd_process_of_parse hp']
      exact report_expand_trim (hgoes hsome)
  refine ⟨hends, fun hsome => ⟨hmarkup hsome, hreport hsome⟩, fun hs => ?_⟩
  have hside : side = (off, {}) := expand_of_settled hs {}
  have hplus : trimmed.2.report.plus side.2.report = trimmed.2.report := by rw [hside, Report.plus_new]
  refine ⟨?_, fun hsome => ⟨hplus ▸ hreport hsome, fun horder => ?_⟩⟩
  · by_cases hnone : whole.1 = none
    · rw [hside] at hends
      rw [hnone, (hends.1 hnone).resolve_right Bool.false_ne_true]
    · exact hmarkup hnone
  · rw [snd_process_of_parse hp, snd_process_of_parse hp']
    exact report_expand_trim_inOrder (hgoes hsome) hs horder

/-- An include as it is read. -/
def includeOf (src : String) (children : List Content) : Content :=
  .node { tag := some "include", attrs := [("src", .text src)] } children

/-- A binding as it is read. -/
def bindingOf (name : String) (content : List Content) : Content :=
  .node { tag := some "yield", attrs := [("name", .text name)] } content

/-- The example page with a text, an element and a binding in its include that are ignored. -/
def litteredMarkup : String := "<include src=b>no<yield name=x>no</yield><i></i><yield name=x>hi"

/-- The page as it is read. -/
def litteredDocument : List Content :=
  [includeOf "b" [.text "no", bindingOf "x" [.text "no"], .node { tag := some "i" } [],
    bindingOf "x" [.text "hi"]]]

theorem inOrder_littered (cut : String → Bool) : ∀ item ∈ litteredDocument, Content.InOrder cut item := by
  intro item hitem h cs hm hcut
  obtain rfl := List.mem_singleton.1 hitem
  simp only [includeOf, bindingOf, Content.nodes, Content.nodesAll, List.nil_append, List.append_nil,
    List.cons_append, List.mem_cons, Content.node.injEq, List.not_mem_nil, or_false] at hm
  obtain ⟨rfl, rfl⟩ | ⟨rfl, rfl⟩ | ⟨rfl, rfl⟩ | ⟨rfl, rfl⟩ := hm
  · decide
  -- a yield and an element are no directives
  all_goals cases hcut

/-- The littered page is processed as the example is. -/
theorem littered_sample_same :
    (Markup.parse litteredMarkup = .ok litteredDocument ∧
      Markup.parse sampleMarkup =
        .ok (litteredDocument.map (Content.trim (sampleExpander.enters sampleFiles [])))) ∧
    (sampleExpander.process sampleFiles "<document>" litteredMarkup).1 = some (Markup.render sampleExpanded) ∧
      (sampleExpander.process sampleFiles "<document>" litteredMarkup).2.report.Agree Eq
        (sampleExpander.process sampleFiles "<document>" sampleMarkup).2.report := by
  have hp : Markup.parse litteredMarkup = .ok litteredDocument := by decide +kernel
  have htrim : litteredDocument.map (Content.trim (sampleExpander.enters sampleFiles [])) = sampleDocument := by
    decide +kernel
  have hp' := htrim ▸ parse_sample
  have hs : Content.Settled (litteredDocument.flatMap
      (Content.trimmings (sampleExpander.enters sampleFiles []))) := by
    unfold Content.Settled
    decide +kernel
  obtain ⟨-, -, hinert⟩ := ignored_children_inert sampleExpander sampleFiles "<document>" hp hp'
  obtain ⟨hsame, hreport⟩ := hinert hs
  obtain ⟨htree, hgoes⟩ := expand_sample
  have hsample : (sampleExpander.process sampleFiles "<document>" sampleMarkup).1 =
      some (Markup.render sampleExpanded) := by
    rw [process_of_parse parse_sample, if_neg (Bool.eq_false_iff.1 hgoes)]
    exact congrArg (fun tree => some (Markup.render tree)) htree
  have hwhole := hsame.trans hsample
  obtain ⟨-, horder⟩ := hreport (by rw [hwhole]; nofun)
  exact ⟨⟨hp, hp'⟩, hwhole, horder (inOrder_littered _)⟩

/-- The files of a project with a fragment that is no markup. -/
def rejectedFiles : FileTree :=
  { FileTree.ofEntries [(["src"], .directory),
      (["src", "b"], .file ⟨"<b><yield name=\"x\"></yield></b>".toUTF8.toList, 0, 0⟩),
      (["src", "g"], .file ⟨"<![x[y]]>".toUTF8.toList, 0, 1⟩)] with fresh := 2 }

/-- **Ignored children can leave traces**: an include of a missing file is reported, one of a file that is no
markup ends the expansion, and the first binding of a name decides on its place. -/
theorem ignored_children_leave_traces :
    let plain := "<include src=b><yield name=x>hi"
    let missing := "<include src=b><yield name=x>hi</yield><include src=n>"
    let rejected := "<include src=b><yield name=x>hi</yield><include src=g>"
    let bound := "<yield name=y><include src=n></include></yield><yield name=x><include src=m>"
    let first := "<include src=b><yield name=x></yield>" ++ bound
    let only := "<include src=b>" ++ bound
    let trim := List.map (Content.trim (sampleExpander.enters rejectedFiles []))
    let ignoring := fun src : String => [includeOf "b" [bindingOf "x" [.text "hi"], includeOf src []]]
    let rebound := [includeOf "b"
      [bindingOf "x" [], bindingOf "y" [includeOf "n" []], bindingOf "x" [includeOf "m" []]]]
    let outcome := fun markup : String =>
      (sampleExpander.process rejectedFiles "a.html" markup).map id fun run => run.report.errors
    (Markup.parse missing = .ok (ignoring "n") ∧ Markup.parse plain = .ok (trim (ignoring "n")) ∧
        Markup.parse rejected = .ok (ignoring "g") ∧ Markup.parse plain = .ok (trim (ignoring "g")) ∧
        Markup.parse first = .ok rebound ∧ Markup.parse only = .ok (trim rebound)) ∧
      outcome plain = (some "<b>hi</b>", []) ∧
      outcome missing = (some "<b>hi</b>", ["Could not read file: /src/n"]) ∧
      (outcome rejected).1 = none ∧
      outcome only = (some "<b><include src=\"m\"></include></b>",
        ["Could not read file: /src/n", "Could not read file: /src/m"]) ∧
      outcome first = (some "<b><include src=\"m\"></include></b>",
        ["Could not read file: /src/m", "Could not read file: /src/n"]) := by
  decide +kernel

end Expander
end PageComposer
