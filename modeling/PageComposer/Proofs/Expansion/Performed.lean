/-
# What performing directives makes of a document

Directives are performed in an order of their own: the slots of an include first, then the include,
then its other children. What becomes of the document can be told without that order
(`Performed`, `Attempt.performed_perform`):

| node | becomes |
| --- | --- |
| no directive | itself, its content performed |
| directive that fails | itself, settled, its content performed |
| directive that is resolved | a transparent node with a fragment |
| directive when the expansion has ended | itself, part of its content performed |

The slots that a directive is attempted with are those of its content as it has been performed
(`SlotMap.ofChildren_performOthers`). What a walk does to the run follows from what each attempt does to
it (`Attempt.Respects.perform`).
-/

import PageComposer.Proofs.Expansion.Walk

namespace PageComposer

/-! ### Runs -/

/-- A relation of runs that holds over a walk: over each attempt, and over what a walk notes itself. -/
structure Attempt.Respects (attempt : Attempt) (R : Run → Run → Prop) : Prop where
  refl : ∀ run, R run run
  trans : ∀ {a b c : Run}, R a b → R b c → R a c
  attempt : ∀ src slots run, R run (attempt src slots run).2
  skip : ∀ run sources, R run (Run.skip run sources)
  release : ∀ run items, R run (Run.release run items)

namespace Attempt

variable {attempt : Attempt} {R : Run → Run → Prop}

theorem Respects.all (hR : attempt.Respects R) :
    (∀ run item, R run (performItem attempt run item).2) ∧
      (∀ slots run children, R run (performOthers attempt slots run children).2) ∧
      (∀ run slots, R run (performSlots attempt run slots).2) ∧
      ∀ run items, R run (perform attempt run items).2 := by
  refine walk_induction attempt (fun run _ r => R run r.2) (fun _ run _ r => R run r.2)
    (fun run _ r => R run r.2) (fun run _ r => R run r.2)
    ?text ?kept ?aborted ?failed ?resolved ?childless ?loser ?winner ?unbound ?slot ?nil ?cons
  case text => exact fun run _ => hR.refl run
  case kept => exact fun _ _ _ _ ih => ih
  case aborted =>
    intro run h cs src slots mid after _ _ ha ihs
    have hstep := hR.attempt src slots mid
    rw [ha] at hstep
    exact hR.trans ihs hstep
  case failed =>
    intro run h cs src slots mid after _ _ ha ihs iho
    have hstep := hR.attempt src slots mid
    rw [ha] at hstep
    exact hR.trans (hR.trans ihs hstep) iho
  case resolved =>
    intro run h cs src slots mid f after _ _ ha ihs iho
    have hstep := hR.attempt src slots mid
    rw [ha] at hstep
    exact hR.trans (hR.trans (hR.trans ihs hstep) iho) (hR.release _ _)
  case childless => exact fun _ run => hR.refl run
  case loser => exact fun _ _ _ _ _ hitem hrest => hR.trans hitem hrest
  case winner => exact fun _ run _ cs _ _ _ _ hrest => hR.trans (hR.skip run _) hrest
  case unbound => exact fun run => hR.refl run
  case slot => exact fun _ _ _ _ hc hrest => hR.trans hc hrest
  case nil => exact fun run => hR.refl run
  case cons => exact fun _ _ _ hitem hrest => hR.trans hitem hrest

/-- **What holds over each attempt holds over a walk.** -/
theorem Respects.perform (hR : attempt.Respects R) (run : Run) (items : List Content) :
    R run (perform attempt run items).2 := hR.all.2.2.2 run items

end Attempt

/-! ### Heads -/

namespace Head

/-- A directive is a pending include with a valid reference. -/
theorem directive?_eq_some_iff {h : Head} {src : String} :
    h.directive? = some src ↔ h.settled = false ∧ h.isInclude = true ∧ h.source? = some src := by
  unfold directive? source?
  cases h.settled <;> cases h.isInclude <;> simp

theorem isInclude_of_directive? {h : Head} {src : String} (hd : h.directive? = some src) :
    h.isInclude = true := (directive?_eq_some_iff.1 hd).2.1

theorem isYield_of_directive? {h : Head} {src : String} (hd : h.directive? = some src) :
    h.isYield = false := isYield_of_isInclude (isInclude_of_directive? hd)

end Head

/-! ### Slots -/

namespace SlotMap

/-- Performing an item keeps the name that it binds. -/
theorem map_fst_binding?_performItem (attempt : Attempt) (run : Run) (item : Content) :
    (binding? (Attempt.performItem attempt run item).1).map Prod.fst =
      (binding? item).map Prod.fst := by
  cases item with
  | text s => simp [Attempt.performItem]
  | node h cs =>
    cases hd : h.directive? with
    | none => simpa [Attempt.performItem, hd] using map_fst_binding? h _ cs
    | some src =>
      have hy := Head.isYield_of_directive? hd
      simp only [Attempt.performItem, hd]
      rw [binding?_eq_none hy cs]
      split
      · rw [binding?_eq_none hy]
      · rw [binding?_eq_none (by simpa using hy)]
      · rw [binding?_eq_none (by simp)]

/-- What binds a name is no directive. -/
theorem directive?_of_binding? {h : Head} {cs : List Content} {b : String × List Content}
    (hb : binding? (.node h cs) = some b) : h.directive? = none := by
  cases hd : h.directive? with
  | none => rfl
  | some src => rw [binding?_eq_none (Head.isYield_of_directive? hd)] at hb; cases hb

theorem binds_eq (name : String) (item : Content) :
    binds name item = ((binding? item).map Prod.fst == some name) := by
  unfold binds
  cases binding? item <;> simp

/-- Performing the other children keeps the names that the children bind. -/
theorem filterMap_fst_performOthers (attempt : Attempt) (slots : SlotMap) (run : Run)
    (children : List Content) :
    ((Attempt.performOthers attempt slots run children).1.filterMap binding?).map Prod.fst =
      (children.filterMap binding?).map Prod.fst := by
  have step : ∀ {item item' : Content} {rest rest' : List Content},
      (binding? item').map Prod.fst = (binding? item).map Prod.fst →
      (rest'.filterMap binding?).map Prod.fst = (rest.filterMap binding?).map Prod.fst →
      ((item' :: rest').filterMap binding?).map Prod.fst =
        ((item :: rest).filterMap binding?).map Prod.fst := by
    intro item item' rest rest' hi hr
    cases hb : binding? item with
    | none =>
      rw [hb, Option.map_none, Option.map_eq_none_iff] at hi
      rw [List.filterMap_cons_none hb, List.filterMap_cons_none hi, hr]
    | some b =>
      rw [hb, Option.map_some] at hi
      obtain ⟨b', hb', he⟩ := Option.map_eq_some_iff.1 hi
      rw [List.filterMap_cons_some hb, List.filterMap_cons_some hb', List.map_cons, List.map_cons,
        hr, he]
  induction children using children_induction generalizing run with
  | nil => rw [Attempt.performOthers]
  | loser item rest hc ih =>
    rw [Attempt.performOthers_of_loser slots run hc]
    exact step (map_fst_binding?_performItem attempt run item) (ih _)
  | winner h cs rest name hb hlast ih =>
    rw [Attempt.performOthers_of_winner slots run hb hlast]
    exact step (map_fst_binding? h _ cs) (ih _)

/-- Performing the children keeps which of them count. -/
theorem counts_performOthers (attempt : Attempt) (slots : SlotMap) (run run' : Run) (item : Content)
    (rest : List Content) :
    counts (Attempt.performItem attempt run item).1 (Attempt.performOthers attempt slots run' rest).1 =
      counts item rest :=
  counts_congr (map_fst_binding?_performItem attempt run item)
    (filterMap_fst_performOthers attempt slots run' rest)

/-- The children of an include, performed, hold under each bound name what `slots` hold. -/
theorem get?_ofChildren_performOthers (attempt : Attempt) {slots : SlotMap} (run : Run)
    {children : List Content} (hs : slots.Covers children) (name : String) :
    (ofChildren (Attempt.performOthers attempt slots run children).1).get? name =
      if children.any (binds name) then slots.get? name else none := by
  induction children using children_induction generalizing run with
  | nil => simp [Attempt.performOthers, ofChildren, ofBindings]
  | loser item rest hc ih =>
    rw [Attempt.performOthers_of_loser slots run hc,
      get?_ofChildren_of_loser ((counts_performOthers attempt slots run _ item rest).trans hc),
      ih _ hs.tail, any_binds_cons_of_loser hc]
  | winner h cs rest n hb hlast ih =>
    have hlast' := (any_binds_congr (filterMap_fst_performOthers attempt slots
      (run.skip (Content.directives cs)) rest) n).trans hlast
    obtain ⟨c, hget⟩ := Option.isSome_iff_exists.1 (hs n (by simp [binds, hb]))
    rw [Attempt.performOthers_of_winner slots run hb hlast,
      get?_ofChildren_of_winner (binding?_with hb _) hlast', ih _ hs.tail, List.any_cons, binds, hb, hget]
    by_cases hn : n = name
    · simp [← hn, hget]
    · simp [hn]

/-- **The slots of an include are those of its content as it has been performed.** -/
theorem ofChildren_performOthers (attempt : Attempt) {slots : SlotMap} (run : Run)
    {children : List Content} (hn : slots.names = (ofChildren children).names) :
    ofChildren (Attempt.performOthers attempt slots run children).1 = slots := by
  have hnames : (ofChildren (Attempt.performOthers attempt slots run children).1).names =
      slots.names :=
    (names_ofBindings_congr (filterMap_fst_performOthers attempt slots run children)).trans hn.symm
  refine ext_names hnames (nodup_names_ofChildren _) fun name hname => ?_
  rw [get?_ofChildren_performOthers attempt run (covers_of_names hn), if_pos]
  rw [← isSome_get?_ofChildren, isSome_get?_iff, ← hn, ← hnames]
  exact hname

end SlotMap
/-! ### Documents -/

/-- What becomes of a document if attempts at directives have outcomes that `T` allows. -/
inductive Performed (T : String → SlotMap → Outcome → Prop) :
    List Content → List Content → Prop
  | nil : Performed T [] []
  | text (s : String) {rest rest' : List Content} (hrest : Performed T rest rest') :
      Performed T (.text s :: rest) (.text s :: rest')
  | kept {h : Head} {cs cs' rest rest' : List Content} (hd : h.directive? = none)
      (hcs : Performed T cs cs') (hrest : Performed T rest rest') :
      Performed T (.node h cs :: rest) (.node h cs' :: rest')
  | aborted {h : Head} {src src' : String} {slots : SlotMap} {cs cs' rest rest' : List Content}
      (hd : h.directive? = some src) (ht : T src' slots .aborted)
      (hcs : Performed T cs cs') (hrest : Performed T rest rest') :
      Performed T (.node h cs :: rest) (.node h cs' :: rest')
  | failed {h : Head} {src : String} {cs cs' rest rest' : List Content}
      (hd : h.directive? = some src) (ht : T src (SlotMap.ofChildren cs') .failed)
      (hcs : Performed T cs cs') (hrest : Performed T rest rest') :
      Performed T (.node h cs :: rest) (.node h.settle cs' :: rest')
  | resolved {h : Head} {src : String} {f cs cs' rest rest' : List Content}
      (hd : h.directive? = some src) (ht : T src (SlotMap.ofChildren cs') (.resolved f))
      (hcs : Performed T cs cs') (hrest : Performed T rest rest') :
      Performed T (.node h cs :: rest) (.node h.resolved f :: rest')

/-- Slots of the same names, with the content of each performed. -/
def PerformedSlots (T : String → SlotMap → Outcome → Prop) (slots slots' : SlotMap) : Prop :=
  slots'.names = slots.names ∧ ∀ name cs, slots.get? name = some cs →
    ∃ cs', slots'.get? name = some cs' ∧ Performed T cs cs'

namespace Performed

variable {T : String → SlotMap → Outcome → Prop}

/-- Once an attempt was aborted, a document may stay as it is. -/
theorem refl_of_aborted {src : String} {slots : SlotMap} (ht : T src slots .aborted)
    (items : List Content) : Performed T items items := by
  induction items using Content.list_induction with
  | nil => exact .nil
  | text s rest ih => exact .text s ih
  | node h cs rest ihc ih =>
    cases hd : h.directive? with
    | none => exact .kept hd ihc ih
    | some src' => exact .aborted hd ht ihc ih

theorem cons_of_aborted {src : String} {slots : SlotMap} (ht : T src slots .aborted) (item : Content)
    {rest rest' : List Content} (hrest : Performed T rest rest') :
    Performed T (item :: rest) (item :: rest') := by
  cases item with
  | text s => exact .text s hrest
  | node h cs =>
    cases hd : h.directive? with
    | none => exact .kept hd (refl_of_aborted ht cs) hrest
    | some src' => exact .aborted hd ht (refl_of_aborted ht cs) hrest

/-- The last binding of each name among `rest` is the last among `item :: rest`. -/
theorem slots_of_cons {slots' : SlotMap} {item : Content} {rest : List Content}
    (hs : ∀ name cs, (SlotMap.ofChildren (item :: rest)).get? name = some cs →
      ∃ cs', slots'.get? name = some cs' ∧ Performed T cs cs') :
    ∀ name cs, (SlotMap.ofChildren rest).get? name = some cs →
      ∃ cs', slots'.get? name = some cs' ∧ Performed T cs cs' := by
  intro name cs hc
  refine hs name cs ?_
  rw [SlotMap.get?_ofChildren_cons, hc]
  rfl

/-- The content of a child that binds a name last is performed as that slot. -/
theorem getD_of_last {slots' : SlotMap} {h : Head} {cs rest : List Content} {name : String}
    (hb : SlotMap.binding? (.node h cs) = some (name, cs)) (hlast : rest.any (SlotMap.binds name) = false)
    (hs : ∀ name cs', (SlotMap.ofChildren (.node h cs :: rest)).get? name = some cs' →
      ∃ cs'', slots'.get? name = some cs'' ∧ Performed T cs' cs'') :
    Performed T cs ((slots'.get? name).getD cs) := by
  obtain ⟨cs', hcs', hp⟩ := hs name cs (by
    rw [SlotMap.get?_ofChildren_of_winner hb hlast, if_pos (beq_self_eq_true name)])
  rw [hcs']
  exact hp

/-- Where an attempt was aborted, the slots are put back into an include. -/
theorem putBack {src : String} {slots slots' : SlotMap} (ht : T src slots .aborted)
    {children : List Content}
    (hs : ∀ name cs, (SlotMap.ofChildren children).get? name = some cs →
      ∃ cs', slots'.get? name = some cs' ∧ Performed T cs cs') :
    Performed T children (slots'.putBack children) := by
  induction children using SlotMap.children_induction with
  | nil => exact .nil
  | loser item rest hc ih =>
    rw [SlotMap.putBack_of_loser slots' hc]
    exact cons_of_aborted ht item (ih (slots_of_cons hs))
  | winner h cs rest name hb hlast ih =>
    rw [SlotMap.putBack_of_winner slots' hb hlast]
    exact .kept (SlotMap.directive?_of_binding? hb) (getD_of_last hb hlast hs) (ih (slots_of_cons hs))

end Performed

namespace Attempt

variable {attempt : Attempt} {Good : Run → Prop} {T : String → SlotMap → Outcome → Prop}

/-- **What a walk makes of a document.**  If a good run was good before, and an attempt that leaves a good
run has an outcome that `T` allows, then a walk that leaves a good run has performed the document. -/
theorem performed_perform (hG : attempt.Respects fun run run' => Good run' → Good run)
    (hT : ∀ src slots run, Good (attempt src slots run).2 →
      T src slots (attempt src slots run).1) (run : Run) (items : List Content)
    (hgood : Good (perform attempt run items).2) :
    Performed T items (perform attempt run items).1 := by
  have keep := hG.all
  -- what an attempt that leaves a good run is made with
  have before : ∀ {src slots mid o after}, attempt src slots mid = (o, after) → Good after →
      Good mid ∧ T src slots o := by
    intro src slots mid o after ha hg
    have hstep := hG.attempt src slots mid
    have ht := hT src slots mid
    rw [ha] at hstep ht
    exact ⟨hstep hg, ht hg⟩
  refine (walk_induction attempt
    (fun _ item r => Good r.2 → ∀ rest rest', Performed T rest rest' →
      Performed T (item :: rest) (r.1 :: rest'))
    (fun slots _ children r => Good r.2 →
      (∀ name cs, (SlotMap.ofChildren children).get? name = some cs →
        ∃ cs', slots.get? name = some cs' ∧ Performed T cs cs') → Performed T children r.1)
    (fun _ slots r => Good r.2 → PerformedSlots T slots r.1)
    (fun _ items r => Good r.2 → Performed T items r.1)
    ?text ?kept ?aborted ?failed ?resolved ?childless ?loser ?winner ?unbound ?slot ?nil ?cons).2.2.2
    run items hgood
  case text => exact fun _ s _ _ _ hrest => .text s hrest
  case kept => exact fun _ _ _ hd ih hg _ _ hrest => .kept hd (ih hg) hrest
  case aborted =>
    intro run h cs src slots mid after hd _ ha ihs hg rest rest' hrest
    obtain ⟨hmid, ht⟩ := before ha hg
    exact .aborted hd ht (.putBack ht (ihs hmid).2) hrest
  case failed =>
    intro run h cs src slots mid after hd _ ha ihs iho hg rest rest' hrest
    obtain ⟨hmid, ht⟩ := before ha (keep.2.1 _ _ _ hg)
    obtain ⟨hn, hs⟩ : PerformedSlots T (SlotMap.ofChildren cs) slots := ihs hmid
    rw [← SlotMap.ofChildren_performOthers attempt after hn] at ht
    exact .failed hd ht (iho hg hs) hrest
  case resolved =>
    intro run h cs src slots mid f after hd _ ha ihs iho hg rest rest' hrest
    have hgo : Good (performOthers attempt slots after cs).2 := hG.release _ _ hg
    obtain ⟨hmid, ht⟩ := before ha (keep.2.1 _ _ _ hgo)
    obtain ⟨hn, hs⟩ : PerformedSlots T (SlotMap.ofChildren cs) slots := ihs hmid
    rw [← SlotMap.ofChildren_performOthers attempt after hn] at ht
    exact .resolved hd ht (iho hgo hs) hrest
  case childless => exact fun _ _ _ _ => .nil
  case loser =>
    intro slots run item rest _ ihi ih hg hs
    exact ihi (keep.2.1 _ _ _ hg) _ _ (ih hg (Performed.slots_of_cons hs))
  case winner =>
    intro slots run h cs rest name hb hlast ih hg hs
    exact .kept (SlotMap.directive?_of_binding? hb) (Performed.getD_of_last hb hlast hs)
      (ih hg (Performed.slots_of_cons hs))
  case unbound => exact fun _ _ => ⟨rfl, by simp⟩
  case slot =>
    intro run name content rest ihc ih hg
    obtain ⟨hn, hs⟩ := ih hg
    refine ⟨by simp [hn], fun name' cs hc => ?_⟩
    rw [SlotMap.get?_cons] at hc ⊢
    split at hc
    · rename_i he
      obtain rfl := Option.some.inj hc
      exact ⟨_, if_pos he, ihc (keep.2.2.1 _ _ hg)⟩
    · rename_i he
      obtain ⟨cs', hcs', hp⟩ := hs name' cs hc
      exact ⟨cs', by rw [if_neg he]; exact hcs', hp⟩
  case nil => exact fun _ _ => .nil
  case cons => exact fun _ _ _ ihi ih hg => ihi (keep.2.2.2 _ _ hg) _ _ (ih hg)

/-- A walk over a document without directives attempts nothing. -/
theorem perform_eq_self (attempt : Attempt) (run : Run) {items : List Content}
    (hd : ∀ h ∈ Content.headsAll items, h.directive? = none) :
    attempt.perform run items = (items, run) := by
  induction items using Content.list_induction with
  | nil => simp [perform]
  | text s rest ih => simp [perform, performItem, ih (by simpa using hd)]
  | node h cs rest ihc ih =>
    have hcs := ihc fun g hg => hd g (by simp [hg])
    have hrest := ih fun g hg => hd g (by simp [hg])
    simp [perform, performItem, hd h (by simp), hcs, hrest]

end Attempt
end PageComposer
