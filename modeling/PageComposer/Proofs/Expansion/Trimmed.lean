/-
# Children that are ignored

A document is trimmed where the children that an include ignores are taken from it (`Content.trim`), and they
are its trimmings (`Content.trimmings`).  Performed, the trimmed document becomes what the whole one becomes,
and adds to a report what that adds but for what the trimmings add by themselves (`Attempt.trims_item`).

The includes that are trimmed are those that do not fail; the others are left with all their children, which
then stay in the document (`Attempt.Sorts`).  In a measure that tells the order of the entries this holds
where the trimmings add nothing and the names stay in order (`Attempt.gain_trim_inOrder`).
-/

import PageComposer.Proofs.Expansion.Gains

namespace PageComposer

/-- Whether the children of a node that are ignored are cut off: it is a directive with a reference that is
to be trimmed. -/
def Head.isCut (cut : String → Bool) (h : Head) : Bool := h.directive?.any cut

theorem Head.isCut_of_isYield {h : Head} (hy : h.isYield = true) (cut : String → Bool) :
    h.isCut cut = false := by
  unfold isCut
  cases hd : h.directive? with
  | none => rfl
  | some src => rw [isYield_of_directive? hd] at hy; cases hy

namespace Content

/-- The children of a node that stay. -/
def kept (cut : String → Bool) (h : Head) (cs : List Content) : List Content :=
  if h.isCut cut then SlotMap.winners cs else cs

/-- The children of a node that are cut off. -/
def cutOff (cut : String → Bool) (h : Head) (cs : List Content) : List Content :=
  if h.isCut cut then SlotMap.losers cs else []

theorem mem_of_mem_kept {cut : String → Bool} {h : Head} {c : Content} {cs : List Content}
    (hc : c ∈ kept cut h cs) : c ∈ cs := by
  unfold kept at hc
  split at hc
  · exact (SlotMap.winners_sublist cs).subset hc
  · exact hc

mutual

/-- An item without what is ignored in it. -/
def trim (cut : String → Bool) : Content → Content
  | .text s => .text s
  | .node h cs => .node h (trimAll cut (h.isCut cut) cs)

/-- The items of a list without what is ignored in them; with `only`, those that count. -/
def trimAll (cut : String → Bool) (only : Bool) : List Content → List Content
  | [] => []
  | item :: rest =>
    if only && !SlotMap.counts item rest then trimAll cut only rest else trim cut item :: trimAll cut only rest

end

mutual

/-- What is ignored in an item. -/
def trimmings (cut : String → Bool) : Content → List Content
  | .text _ => []
  | .node h cs => cutOff cut h cs ++ trimmingsAll cut (h.isCut cut) cs

/-- What is ignored in the items of a list; with `only`, in those that count. -/
def trimmingsAll (cut : String → Bool) (only : Bool) : List Content → List Content
  | [] => []
  | item :: rest =>
    (if only && !SlotMap.counts item rest then [] else trimmings cut item) ++ trimmingsAll cut only rest

end

variable {cut : String → Bool}

@[simp] theorem trim_text (s : String) : trim cut (.text s) = .text s := rfl

@[simp] theorem trimmings_text (s : String) : trimmings cut (.text s) = [] := rfl

theorem trimAll_eq_map (only : Bool) (items : List Content) :
    trimAll cut only items = (if only then SlotMap.winners items else items).map (trim cut) := by
  induction items with
  | nil => cases only <;> rfl
  | cons item rest ih =>
    rw [trimAll, ih, SlotMap.winners]
    cases only <;> cases SlotMap.counts item rest <;> rfl

theorem trimmingsAll_eq_flatMap (only : Bool) (items : List Content) :
    trimmingsAll cut only items = (if only then SlotMap.winners items else items).flatMap (trimmings cut) := by
  induction items with
  | nil => cases only <;> rfl
  | cons item rest ih =>
    rw [trimmingsAll, ih, SlotMap.winners]
    cases only <;> cases SlotMap.counts item rest <;> rfl

theorem trim_node (h : Head) (cs : List Content) :
    trim cut (.node h cs) = .node h ((kept cut h cs).map (trim cut)) := by
  rw [trim, trimAll_eq_map, kept]

theorem trimmings_node (h : Head) (cs : List Content) :
    trimmings cut (.node h cs) = cutOff cut h cs ++ (kept cut h cs).flatMap (trimmings cut) := by
  rw [trimmings, trimmingsAll_eq_flatMap, kept]

/-- Without what is ignored, the trimmed includes of an item bind their names in the order in which they did
before. -/
def InOrder (cut : String → Bool) (item : Content) : Prop :=
  ∀ h cs, .node h cs ∈ nodes item → h.isCut cut = true →
    (SlotMap.ofChildren cs).names = (SlotMap.ofChildren (SlotMap.winners cs)).names

theorem InOrder.of_mem {h : Head} {c : Content} {cs : List Content} (ho : InOrder cut (.node h cs))
    (hc : c ∈ cs) : InOrder cut c := by
  refine fun g ds hm => ho g ds ?_
  rw [nodes]
  refine List.mem_cons_of_mem _ ?_
  clear ho
  induction cs with
  | nil => cases hc
  | cons first rest ih =>
    rw [nodesAll]
    rcases List.mem_cons.1 hc with rfl | hc
    · exact List.mem_append_left _ hm
    · exact List.mem_append_right _ (ih hc)

/-- **Induction on an item.**  The case of a node has the statement for each of its children. -/
@[elab_as_elim] theorem item_induction {motive : Content → Prop} (text : ∀ s, motive (.text s))
    (node : ∀ h cs, (∀ c ∈ cs, motive c) → motive (.node h cs)) (item : Content) : motive item := by
  have all : ∀ items : List Content, ∀ c ∈ items, motive c := by
    intro items
    induction items using list_induction with
    | nil => simp
    | text s rest ih => exact List.forall_mem_cons.2 ⟨text s, ih⟩
    | node h cs rest ihc ih => exact List.forall_mem_cons.2 ⟨node h cs ihc, ih⟩
  exact all [item] item (List.mem_singleton_self item)

/-- Trimming changes what is bound to a name, and no name. -/
theorem binding?_trim (item : Content) :
    SlotMap.binding? (trim cut item) = (SlotMap.binding? item).map fun b => (b.1, b.2.map (trim cut)) := by
  cases item with
  | text s => rw [trim_text]; rfl
  | node h cs =>
    rw [trim_node, SlotMap.binding?_node, SlotMap.binding?_node]
    split
    · rename_i hy
      rw [kept, if_neg (by simp [Head.isCut_of_isYield hy]), Option.map_map]
      rfl
    · rfl

end Content

/-! ### What the children of an include add -/

namespace Attempt

variable {A : Attempt}

section

variable {M : Type} [AddMonoid M] {μ : Report.Measure M} (hA : A.Settling) (hF : A.Framed μ)

include hA hF in
/-- The slots of the children that count add what these add, in order. -/
theorem gainSlots_winners (cs : List Content) :
    A.gainSlots μ (SlotMap.ofChildren (SlotMap.winners cs)) = A.gain μ (SlotMap.winners cs) := by
  rw [SlotMap.ofChildren_winners, gain_eq_sum hA hF]
  have bound : ∀ item ∈ SlotMap.winners cs, ∃ b, SlotMap.binding? item = some b := fun item hitem => by
    obtain ⟨b, hb, -⟩ := SlotMap.get?_ofChildren_of_mem_winners hitem
    exact ⟨b, hb⟩
  revert bound
  generalize SlotMap.winners cs = items
  intro bound
  induction items with
  | nil => rfl
  | cons item rest ih =>
    obtain ⟨⟨b, hb⟩, hrest⟩ := List.forall_mem_cons.1 bound
    rw [List.filterMap_cons_some hb, gainSlots_cons, ih hrest, List.map_cons, List.sum_cons]
    congr 1
    cases item with
    | text s => cases hb
    | node h c =>
      obtain ⟨name, c'⟩ := b
      rw [gain_node (SlotMap.directive?_of_binding? hb), SlotMap.snd_of_binding? hb]

end

section

variable {M : Type} [AddCommMonoid M] {μ : Report.Measure M} (hA : A.Settling) (hF : A.Framed μ)

include hA hF in
theorem gain_perm {items items' : List Content} (hp : items.Perm items') :
    A.gain μ items = A.gain μ items' := by
  rw [gain_eq_sum hA hF, gain_eq_sum hA hF items']
  exact (hp.map _).sum_eq

include hA hF in
/-- **Where their order does not matter**, the children of a directive add what they add by themselves. -/
theorem gain_directive {h : Head} {src : String} (hd : h.directive? = some src) (cs : List Content) :
    A.gain μ [.node h cs] = A.gain μ cs + A.trial μ src (A.ready (SlotMap.ofChildren cs)) := by
  have hslots : A.gainSlots μ (SlotMap.ofChildren cs) = A.gain μ (SlotMap.winners cs) := by
    rw [← gainSlots_winners hA hF]
    exact ((SlotMap.ofChildren_winners_perm cs).map _).sum_eq
  rw [(directive hA hF hd cs).1, hslots, ← gain_perm hA hF (SlotMap.winners_append_losers_perm cs),
    gain_append hA hF]
  exact add_right_comm ..

end

/-- References that are cut do not fail, and all others do the same whatever their slots. -/
structure Sorts (A : Attempt) (cut : String → Bool) : Prop where
  entered : ∀ src slots, cut src = true → (A src slots {}).1 ≠ .failed
  refused : ∀ src slots slots', cut src = false → A src slots {} = A src slots' {}

/-! ### What trimming changes -/

/-- Items that become what others become, unless they end the expansion; and else the others do not end it
either. -/
def Becomes (A : Attempt) (items items' : List Content) : Prop :=
  (A.perform {} items).2.isOver = false →
    (A.perform {} items').2.isOver = false ∧ A.done items = A.done items'

section

variable {M : Type} [AddMonoid M] {μ : Report.Measure M} {cut : String → Bool} (hA : A.Settling)
  (hF : A.Framed μ)

theorem goes_iff {items : List Content} :
    (A.perform {} items).2.isOver = false ↔ A.gain μ items ≠ ⊤ := by
  rw [gain, ne_eq, Run.cost_eq_top_iff, Bool.not_eq_true]

include hA hF in
/-- The slots of a directive are attempted as they would be without the other children. -/
theorem same_ready {cs : List Content}
    (h : ∀ c ∈ SlotMap.winners cs, Becomes A [c] [c.trim cut])
    (hgoes : A.gain μ (SlotMap.winners cs) ≠ ⊤) :
    (A.ready (SlotMap.ofChildren cs)).Same
      (A.ready (SlotMap.ofChildren ((SlotMap.winners cs).map (Content.trim cut)))) := by
  intro name
  rw [get?_ready, get?_ready, SlotMap.ofChildren_map Content.binding?_trim, SlotMap.get?_map,
    SlotMap.get?_winners]
  cases hget : (SlotMap.ofChildren cs).get? name with
  | none => rfl
  | some c =>
    rw [← SlotMap.get?_winners] at hget
    have hslot := SlotMap.mem_of_get? hget
    rw [SlotMap.ofChildren_winners] at hslot
    obtain ⟨item, hitem, hb⟩ := List.mem_filterMap.1 hslot
    cases item with
    | text s => cases hb
    | node h' c' =>
      obtain rfl := SlotMap.snd_of_binding? hb
      have hd := SlotMap.directive?_of_binding? hb
      have hitemGoes := ne_top_of_gain hA hF hgoes _ hitem
      obtain ⟨hgoes', hdone⟩ := h _ hitem (goes_iff.2 hitemGoes)
      rw [goes_iff (μ := μ)] at hgoes'
      rw [Content.trim_node, Content.kept, if_neg (by simp [Head.isCut, hd])] at hgoes' hdone
      rw [gain_node hd] at hitemGoes hgoes'
      rw [done_node hA hF hd hitemGoes, done_node hA hF hd hgoes', List.singleton_inj,
        Content.node.injEq] at hdone
      rw [Option.map_some, Option.map_some, Option.map_some, hdone.2]

include hA hF in
/-- Once its slots have ended the expansion, it does not matter what a directive is attempted with. -/
theorem trial_of_winners {cs : List Content}
    (h : ∀ c ∈ SlotMap.winners cs, Becomes A [c] [c.trim cut]) (src : String) :
    A.gain μ (SlotMap.winners cs) + A.trial μ src (A.ready (SlotMap.ofChildren cs)) =
      A.gain μ (SlotMap.winners cs) + A.trial μ src
        (A.ready (SlotMap.ofChildren ((SlotMap.winners cs).map (Content.trim cut)))) := by
  by_cases htop : A.gain μ (SlotMap.winners cs) = ⊤
  · rw [htop, WithTop.top_add, WithTop.top_add]
  · rw [(trial_congr hF (same_ready hA hF h htop) src).1]

end

section

variable {M : Type} [AddCommMonoid M] {μ : Report.Measure M} {cut : String → Bool}

/-- Items that become what others become, and add what these and what is `off` add. -/
structure Trims (μ : Report.Measure M) (A : Attempt) (items items' off : List Content) : Prop where
  gain : A.gain μ items = A.gain μ items' + A.gain μ off
  done : A.gain μ items ≠ ⊤ → A.done items = A.done items'

theorem Trims.becomes {items items' off : List Content} (h : Trims μ A items items' off) :
    Becomes A items items' := by
  intro hgoes
  rw [goes_iff (μ := μ)] at hgoes ⊢
  have hdone := h.done hgoes
  rw [h.gain, WithTop.add_ne_top] at hgoes
  exact ⟨hgoes.1, hdone⟩

variable (hA : A.Settling) (hF : A.Framed μ) (hcut : A.Sorts cut)

include hA hF in
theorem trims_list {items : List Content}
    (h : ∀ c ∈ items, Trims μ A [c] [c.trim cut] (c.trimmings cut)) :
    Trims μ A items (items.map (Content.trim cut)) (items.flatMap (Content.trimmings cut)) := by
  induction items with
  | nil => exact ⟨by simp, fun _ => rfl⟩
  | cons c rest ih =>
    obtain ⟨hc, hrest⟩ := List.forall_mem_cons.1 h
    have ih := ih hrest
    constructor
    · rw [gain_cons hA hF, List.map_cons, gain_cons hA hF (c.trim cut), List.flatMap_cons, gain_append hA hF,
        hc.gain, ih.gain]
      exact add_add_add_comm ..
    · intro hgoes
      rw [gain_cons hA hF, WithTop.add_ne_top] at hgoes
      rw [done_cons, List.map_cons, done_cons (c.trim cut), hc.done hgoes.1, ih.done hgoes.2]

include hA hF in
/-- A node that is no directive. -/
theorem trims_node {h : Head} {cs cs' off : List Content} (hd : h.directive? = none)
    (hcs : Trims μ A cs cs' off) : Trims μ A [.node h cs] [.node h cs'] off := by
  refine ⟨by rw [gain_node hd, gain_node hd, hcs.gain], fun hgoes => ?_⟩
  rw [gain_node hd] at hgoes
  have hgoes' := (hcs.becomes (goes_iff.2 hgoes)).1
  rw [goes_iff (μ := μ)] at hgoes'
  rw [done_node hA hF hd hgoes, done_node hA hF hd hgoes', hcs.done hgoes]

include hA hF in
/-- A directive that is refused whatever its slots. -/
theorem trims_refused {h : Head} {src : String} {cs cs' off : List Content} (hd : h.directive? = some src)
    (hsame : A src (A.ready (SlotMap.ofChildren cs)) {} = A src (A.ready (SlotMap.ofChildren cs')) {})
    (hcs : Trims μ A cs cs' off) : Trims μ A [.node h cs] [.node h cs'] off := by
  have hgain : A.gain μ [.node h cs] = A.gain μ [.node h cs'] + A.gain μ off := by
    rw [gain_directive hA hF hd, gain_directive hA hF hd, hcs.gain, trial, trial, hsame]
    exact add_right_comm ..
  refine ⟨hgain, fun hgoes => ?_⟩
  have hgoes' := hgoes
  rw [hgain, WithTop.add_ne_top] at hgoes'
  rw [(directive hA hF hd cs).2 hgoes, (directive hA hF hd cs').2 hgoes'.1, hsame]
  rw [gain_directive hA hF hd, WithTop.add_ne_top] at hgoes
  rw [hcs.done hgoes.1]

include hA hF in
/-- A directive that does not fail, without the children that are ignored. -/
theorem trims_entered {h : Head} {src : String} {cs off : List Content} (hd : h.directive? = some src)
    (hentered : (A src (A.ready (SlotMap.ofChildren cs)) {}).1 ≠ .failed)
    (hchildren : ∀ c ∈ SlotMap.winners cs, Becomes A [c] [c.trim cut])
    (hcs : Trims μ A (SlotMap.winners cs) ((SlotMap.winners cs).map (Content.trim cut)) off) :
    Trims μ A [.node h cs] [.node h ((SlotMap.winners cs).map (Content.trim cut))]
      (SlotMap.losers cs ++ off) := by
  have hsplit : A.gain μ cs = A.gain μ (SlotMap.winners cs) + A.gain μ (SlotMap.losers cs) := by
    rw [← gain_append hA hF, gain_perm hA hF (SlotMap.winners_append_losers_perm cs)]
  have hgain : A.gain μ [.node h cs] =
      A.gain μ [.node h ((SlotMap.winners cs).map (Content.trim cut))] +
        A.gain μ (SlotMap.losers cs ++ off) := by
    rw [gain_directive hA hF hd, gain_directive hA hF hd, gain_append hA hF, hsplit, add_right_comm,
      trial_of_winners hA hF hchildren, hcs.gain]
    ac_rfl
  refine ⟨hgain, fun hgoes => ?_⟩
  have hgoes' := hgoes
  rw [hgain, WithTop.add_ne_top] at hgoes'
  rw [(directive hA hF hd cs).2 hgoes, (directive hA hF hd _).2 hgoes'.1]
  rw [gain_directive hA hF hd, hsplit, WithTop.add_ne_top, WithTop.add_ne_top] at hgoes
  rw [← (trial_congr hF (same_ready hA hF hchildren hgoes.1.1) src).2]
  have haborted := hA.aborted src (A.ready (SlotMap.ofChildren cs)) {}
  cases ho : (A src (A.ready (SlotMap.ofChildren cs)) {}).1 with
  | aborted => exact absurd (Run.cost_of_isOver (haborted ho)) hgoes.2
  | failed => exact absurd ho hentered
  | resolved f => rfl

include hA hF hcut in
/-- **A trimmed item** adds what the item adds, but for its trimmings, and becomes the same. -/
theorem trims_item (item : Content) : Trims μ A [item] [item.trim cut] (item.trimmings cut) := by
  induction item using Content.item_induction with
  | text s => exact ⟨by simp, fun _ => by simp⟩
  | node h cs ih =>
    have hkept := trims_list hA hF fun c (hc : c ∈ Content.kept cut h cs) => ih c (Content.mem_of_mem_kept hc)
    rw [Content.trim_node, Content.trimmings_node, Content.cutOff]
    rw [Content.kept] at hkept ⊢
    cases hd : h.directive? with
    | none =>
      have hno : ¬ h.isCut cut = true := by simp [Head.isCut, hd]
      rw [if_neg hno] at hkept ⊢
      rw [if_neg hno]
      exact trims_node hA hF hd hkept
    | some src =>
      cases hc : cut src with
      | false =>
        have hno : ¬ h.isCut cut = true := by simp [Head.isCut, hd, hc]
        rw [if_neg hno] at hkept ⊢
        rw [if_neg hno]
        exact trims_refused hA hF hd (hcut.refused src _ _ hc) hkept
      | true =>
        have hyes : h.isCut cut = true := by simp [Head.isCut, hd, hc]
        rw [if_pos hyes] at hkept ⊢
        rw [if_pos hyes]
        exact trims_entered hA hF hd (hcut.entered src _ hc)
          (fun c hc => (ih c ((SlotMap.winners_sublist cs).subset hc)).becomes) hkept

end

/-! ### In order -/

section

variable {M : Type} [AddMonoid M] {μ : Report.Measure M} {cut : String → Bool} (hA : A.Settling)
  (hF : A.Framed μ) (hcut : A.Sorts cut)

include hA hF in
theorem gain_map_trim {items : List Content} (h : ∀ c ∈ items, A.gain μ [c] = A.gain μ [c.trim cut]) :
    A.gain μ items = A.gain μ (items.map (Content.trim cut)) := by
  rw [gain_eq_sum hA hF, gain_eq_sum hA hF (items.map _), List.map_map]
  exact congrArg List.sum (List.map_congr_left h)

include hA hF in
theorem gain_of_nothing {items : List Content} (h : ∀ c ∈ items, A.gain μ [c] = 0) : A.gain μ items = 0 := by
  rw [gain_eq_sum hA hF]
  exact List.sum_eq_zero fun m hm => by
    obtain ⟨c, hc, rfl⟩ := List.mem_map.1 hm
    exact h c hc

/-- The slots of children that stay add the same, trimmed. -/
theorem gainSlots_map_trim {cs : List Content} (hchild : ∀ c ∈ cs, A.gain μ [c] = A.gain μ [c.trim cut]) :
    A.gainSlots μ (SlotMap.ofChildren cs) =
      A.gainSlots μ (SlotMap.ofChildren (cs.map (Content.trim cut))) := by
  rw [SlotMap.ofChildren_map Content.binding?_trim, gainSlots, gainSlots, List.map_map]
  refine congrArg List.sum (List.map_congr_left fun s hs => ?_)
  obtain ⟨item, hitem, hb⟩ := List.mem_filterMap.1 (SlotMap.mem_of_mem_ofChildren hs)
  cases item with
  | text t => cases hb
  | node h c =>
    have hc : s.2 = c := SlotMap.snd_of_binding? hb
    have hd := SlotMap.directive?_of_binding? hb
    have hsame := hchild _ hitem
    rw [Content.trim_node, Content.kept, if_neg (by simp [Head.isCut, hd]), gain_node hd, gain_node hd] at hsame
    rw [Function.comp_apply, hc, hsame]

include hA hF hcut in
/-- **A trimmed item adds the same in the same order**, if its trimmings add nothing and the names that it
binds stay in order. -/
theorem gain_trim_inOrder (hbecomes : ∀ item : Content, Becomes A [item] [item.trim cut]) (item : Content)
    (hoff : ∀ c ∈ item.trimmings cut, A.gain μ [c] = 0) (horder : item.InOrder cut) :
    A.gain μ [item] = A.gain μ [item.trim cut] := by
  induction item using Content.item_induction with
  | text s => simp
  | node h cs ih =>
    have hchild : ∀ c ∈ Content.kept cut h cs, A.gain μ [c] = A.gain μ [c.trim cut] := fun c hc => by
      refine ih c (Content.mem_of_mem_kept hc) (fun d hd => hoff d ?_)
        (horder.of_mem (Content.mem_of_mem_kept hc))
      rw [Content.trimmings_node]
      exact List.mem_append_right _ (List.mem_flatMap.2 ⟨c, hc, hd⟩)
    have hlosers : ∀ c ∈ Content.cutOff cut h cs, A.gain μ [c] = 0 := fun c hc => by
      refine hoff c ?_
      rw [Content.trimmings_node]
      exact List.mem_append_left _ hc
    rw [Content.trim_node]
    rw [Content.kept] at hchild ⊢
    rw [Content.cutOff] at hlosers
    cases hd : h.directive? with
    | none =>
      have hno : ¬ h.isCut cut = true := by simp [Head.isCut, hd]
      rw [if_neg hno] at hchild ⊢
      rw [gain_node hd, gain_node hd, gain_map_trim hA hF hchild]
    | some src =>
      rw [(directive hA hF hd cs).1, (directive hA hF hd _).1]
      cases hc : cut src with
      | false =>
        have hno : ¬ h.isCut cut = true := by simp [Head.isCut, hd, hc]
        rw [if_neg hno] at hchild ⊢
        rw [gainSlots_map_trim hchild, SlotMap.losers_map Content.binding?_trim,
          ← gain_map_trim hA hF fun c hc => hchild c ((SlotMap.losers_sublist cs).subset hc), trial, trial,
          hcut.refused src _ (A.ready (SlotMap.ofChildren (cs.map (Content.trim cut)))) hc]
      | true =>
        have hyes : h.isCut cut = true := by simp [Head.isCut, hd, hc]
        rw [if_pos hyes] at hchild hlosers ⊢
        have hslots : SlotMap.ofChildren cs = SlotMap.ofChildren (SlotMap.winners cs) :=
          SlotMap.ext_names (horder h cs (by simp [Content.nodes]) hyes) (SlotMap.nodup_names_ofChildren cs)
            fun name _ => (SlotMap.get?_winners cs name).symm
        have hwinners : SlotMap.winners ((SlotMap.winners cs).map (Content.trim cut)) =
            (SlotMap.winners cs).map (Content.trim cut) := by
          rw [SlotMap.winners_map Content.binding?_trim, (SlotMap.winners_winners cs).1]
        have hnone : SlotMap.losers ((SlotMap.winners cs).map (Content.trim cut)) = [] := by
          rw [SlotMap.losers_map Content.binding?_trim, (SlotMap.winners_winners cs).2, List.map_nil]
        have hslots' := gainSlots_winners hA hF ((SlotMap.winners cs).map (Content.trim cut))
        rw [hwinners] at hslots'
        rw [hslots', hnone, gain_nil, gain_of_nothing hA hF hlosers, hslots, gainSlots_winners hA hF, ← hslots,
          trial_of_winners hA hF fun c _ => hbecomes c, gain_map_trim hA hF hchild]

end

end Attempt
end PageComposer
