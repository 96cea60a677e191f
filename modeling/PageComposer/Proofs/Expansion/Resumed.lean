/-
# Going on after a fault

What an expansion leaves where a fault has ended it still stands for the document it was: another expansion
of it ends as one of the document itself would, if the outcomes of the attempts that were completed are the
same again (`Halted.resumes`).

| left by the first | the second walk | a walk over the document itself |
| --- | --- | --- |
| performed items | passes over them | performs them to the same |
| slots put back | performs those that are left | performs all of them to the same |
| directive that has failed | goes on in its children | fails again, goes on in the same children |
| directive that has been resolved | passes over it | resolves it to the same, then performs its children |

Only the last kind is not taken up again: the children of a resolved include have been released, and what
went wrong there is not met a second time.
-/

import PageComposer.Proofs.Expansion.Halted
import PageComposer.Proofs.Expansion.Trimmed

namespace PageComposer

/-- What two walks give comes to the same: one document, and both runs go on or have ended. -/
def Alike {α : Type} (r r' : α × Run) : Prop := r'.1 = r.1 ∧ r'.2.isOver = r.2.isOver

theorem Alike.trans {α : Type} {a b c : α × Run} (h₁ : Alike a b) (h₂ : Alike b c) : Alike a c :=
  ⟨h₂.1.trans h₁.1, h₂.2.trans h₁.2⟩

theorem Alike.symm {α : Type} {a b : α × Run} (h : Alike a b) : Alike b a := ⟨h.1.symm, h.2.symm⟩

namespace Attempt

/-- Attempts that look in the run only at whether it has ended. -/
def Blind (A : Attempt) : Prop :=
  ∀ src slots run run', run'.isOver = run.isOver → Alike (A src slots run) (A src slots run')

variable {A : Attempt}

theorem blind_of_framed {M : Type} [AddMonoid M] {μ : Report.Measure M} (hF : A.Framed μ) (hS : A.Stops) :
    A.Blind := by
  intro src slots run run' hover
  cases ho : run.isOver with
  | true =>
    rw [hS _ _ _ ho, hS _ _ _ (hover.trans ho)]
    exact ⟨rfl, hover⟩
  | false =>
    have fromNew : ∀ run : Run, run.isOver = false → Alike (A src slots {}) (A src slots run) := by
      intro run ho
      obtain ⟨houtcome, hshifted⟩ := hF.alike (.refl slots) (Run.shifted_of_goes (μ := μ) ho)
      exact ⟨houtcome, hshifted.isOver⟩
    exact (fromNew run ho).symm.trans (fromNew run' (hover.trans ho))

section

variable (hB : A.Blind)

include hB in
theorem Blind.simulates :
    A.Simulates A (fun run run' => run'.isOver = run.isOver) (fun _ => True) (fun _ => True) where
  good := ⟨fun _ => id, fun h₁ h₂ => h₁ ∘ h₂, fun _ _ _ => id, fun _ _ => id, fun _ _ => id⟩
  attempt := fun _ h _ => hB _ _ _ _ h
  skip := fun sources h => by
    rw [Run.isOver_of_like (Run.like_skip _ sources), Run.isOver_of_like (Run.like_skip _ sources), h]
  release := fun _ h => h

include hB in
theorem Blind.perform {run run' : Run} (h : run'.isOver = run.isOver) (items : List Content) :
    Alike (perform A run items) (Attempt.perform A run' items) :=
  hB.simulates.all.2.2.2 run items run' h (fun _ _ _ _ => trivial) trivial

include hB in
theorem Blind.performItem {run run' : Run} (h : run'.isOver = run.isOver) (item : Content) :
    Alike (performItem A run item) (Attempt.performItem A run' item) :=
  hB.simulates.all.1 run item run' h (fun _ _ _ _ => trivial) trivial

include hB in
theorem Blind.performSlots {run run' : Run} (h : run'.isOver = run.isOver) (slots : SlotMap) :
    Alike (performSlots A run slots) (Attempt.performSlots A run' slots) :=
  hB.simulates.all.2.2.1 run slots run' h (fun _ _ _ _ _ _ => trivial) trivial

include hB in
/-- The other children are performed alike, whatever slots have been put back before. -/
theorem Blind.performOthers {slots : SlotMap} (slots' : SlotMap) {run run' : Run}
    (h : run'.isOver = run.isOver) {children : List Content} (hs : slots.Covers children) :
    Alike (performOthers A slots run children) (Attempt.performOthers A slots run' (slots'.putBack children)) := by
  induction children using SlotMap.children_induction generalizing run run' with
  | nil =>
    rw [SlotMap.putBack, Attempt.performOthers, Attempt.performOthers]
    exact ⟨rfl, h⟩
  | loser item rest hc ih =>
    rw [SlotMap.putBack_of_loser slots' hc, performOthers_of_loser slots run hc,
      performOthers_of_loser slots run' ((SlotMap.counts_putBack slots' item rest).trans hc)]
    obtain ⟨hitem, hover⟩ := hB.performItem h item
    obtain ⟨hrest, hover'⟩ := ih hover hs.tail
    exact ⟨by rw [hitem, hrest], hover'⟩
  | winner h₀ cs rest name hb hlast ih =>
    obtain ⟨content, hget⟩ := Option.isSome_iff_exists.1 (hs name (by simp [SlotMap.binds, hb]))
    rw [SlotMap.putBack_of_winner slots' hb hlast, performOthers_of_winner slots run hb hlast,
      performOthers_of_winner slots run' (SlotMap.binding?_with hb _)
        ((SlotMap.any_binds_putBack slots' rest name).trans hlast), hget]
    have hskip : (run'.skip (Content.directives ((slots'.get? name).getD cs))).isOver =
        (run.skip (Content.directives cs)).isOver := by
      rw [Run.isOver_of_like (Run.like_skip _ _), Run.isOver_of_like (Run.like_skip _ _), h]
    obtain ⟨hrest, hover'⟩ := ih hskip hs.tail
    exact ⟨by rw [Option.getD_some, Option.getD_some, hrest], hover'⟩

include hB in
/-- Around slots in which nothing is left to perform, performing the other children is performing all. -/
theorem Blind.perform_putBack {slots : SlotMap} {run run' : Run} (h : run'.isOver = run.isOver)
    {children : List Content} (hs : slots.Covers children) (hsettled : ∀ s ∈ slots, Content.Settled s.2) :
    Alike (Attempt.performOthers A slots run children) (Attempt.perform A run' (slots.putBack children)) := by
  induction children using SlotMap.children_induction generalizing run run' with
  | nil =>
    rw [SlotMap.putBack, Attempt.performOthers, Attempt.perform]
    exact ⟨rfl, h⟩
  | loser item rest hc ih =>
    rw [SlotMap.putBack_of_loser slots hc, performOthers_of_loser slots run hc, Attempt.perform]
    obtain ⟨hitem, hover⟩ := hB.performItem h item
    obtain ⟨hrest, hover'⟩ := ih hover hs.tail
    exact ⟨by rw [hitem, hrest], hover'⟩
  | winner h₀ cs rest name hb hlast ih =>
    obtain ⟨content, hget⟩ := Option.isSome_iff_exists.1 (hs name (by simp [SlotMap.binds, hb]))
    have hcontent := hsettled _ (SlotMap.mem_of_get? hget)
    have hitem : Attempt.performItem A run' (.node h₀ content) = (.node h₀ content, run') := by
      rw [performItem_kept (SlotMap.directive?_of_binding? hb),
        perform_eq_self A run' hcontent.directive?_eq_none]
    rw [SlotMap.putBack_of_winner slots hb hlast, performOthers_of_winner slots run hb hlast, hget,
      Option.getD_some, Attempt.perform, hitem]
    have hskip : run'.isOver = (run.skip (Content.directives cs)).isOver := by
      rw [Run.isOver_of_like (Run.like_skip _ _), h]
    obtain ⟨hrest, hover'⟩ := ih hskip hs.tail
    exact ⟨by rw [hrest], hover'⟩

end

/-! ### The same outcomes again -/

/-- Attempts whose outcomes in a run that goes on are those that `T` allows. -/
structure Repeats (A : Attempt) (T : String → SlotMap → Outcome → Prop) : Prop where
  settling : A.Settling
  stops : A.Stops
  framed : A.Framed Report.tally
  repeats : ∀ {src slots o}, T src slots o → (A src slots {}).1 = o ∧ (A src slots {}).2.isOver = false

variable {T : String → SlotMap → Outcome → Prop}

theorem Repeats.blind (hA : A.Repeats T) : A.Blind := blind_of_framed hA.framed hA.stops

theorem Repeats.attempt (hA : A.Repeats T) {src : String} {slots : SlotMap} {o : Outcome} {run : Run}
    (ht : T src slots o) (hgo : run.isOver = false) :
    (A src slots run).1 = o ∧ (A src slots run).2.isOver = false := by
  obtain ⟨ho, hover⟩ := hA.repeats ht
  obtain ⟨ho', hover'⟩ := hA.blind src slots {} run hgo
  exact ⟨ho'.trans ho, hover'.trans hover⟩

theorem Repeats.ne_aborted (hA : A.Repeats T) {src : String} {slots : SlotMap} : ¬T src slots .aborted := by
  intro ht
  obtain ⟨ho, hover⟩ := hA.repeats ht
  rw [hA.settling.aborted src slots {} ho] at hover
  cases hover

theorem Repeats.settled (hA : A.Repeats T) {src : String} {slots : SlotMap} {f : List Content}
    (ht : T src slots (.resolved f)) : Content.Settled f :=
  hA.settling.resolved src slots {} f (hA.repeats ht).1 (hA.repeats ht).2

/-- The slots that a directive is attempted with are those of what its children become. -/
theorem Repeats.ofChildren_done (hA : A.Repeats T) {cs : List Content} (hgoes : A.gain Report.tally cs ≠ ⊤) :
    SlotMap.ofChildren (A.done cs) = A.ready (SlotMap.ofChildren cs) := by
  have hS := hA.settling
  have hF := hA.framed
  have hwinners : A.gainSlots Report.tally (SlotMap.ofChildren cs) = A.gain Report.tally (SlotMap.winners cs) := by
    rw [← gainSlots_winners hS hF]
    exact ((SlotMap.ofChildren_winners_perm cs).map _).sum_eq
  rw [← gain_perm hS hF (SlotMap.winners_append_losers_perm cs), gain_append hS hF, ← hwinners,
    WithTop.add_ne_top] at hgoes
  have hothers : (performOthers A (A.ready (SlotMap.ofChildren cs)) {} cs).2.isOver = false := by
    refine Bool.eq_false_iff.2 fun ho => hgoes.2 ?_
    have hcost := cost_performOthers hS hF (A.ready (SlotMap.ofChildren cs)) {} cs
    rw [Run.cost_of_isOver ho, Run.cost_of_goes rfl] at hcost
    exact (WithTop.add_eq_top.1 hcost.symm).resolve_left WithTop.coe_ne_top
  rw [← performOthers_ready hS hF hgoes.1 hothers]
  refine SlotMap.ofChildren_performOthers A {} ?_
  simp [SlotMap.names, ready]

/-- A directive whose children have been performed is performed to the same again. -/
theorem Repeats.done_directive (hA : A.Repeats T) {h : Head} {src : String} {cs cs' : List Content} {o : Outcome}
    (hd : h.directive? = some src) (ht : T src (SlotMap.ofChildren cs') o)
    (hcs : A.gain Report.tally cs ≠ ⊤ ∧ A.done cs = cs') :
    A.gain Report.tally [.node h cs] ≠ ⊤ ∧ (A src (A.ready (SlotMap.ofChildren cs)) {}).1 = o := by
  obtain ⟨hgoes, rfl⟩ := hcs
  rw [hA.ofChildren_done hgoes] at ht
  obtain ⟨ho, hover⟩ := hA.repeats ht
  refine ⟨?_, ho⟩
  rw [gain_directive hA.settling hA.framed hd, WithTop.add_ne_top]
  exact ⟨hgoes, fun htop => by rw [Run.cost_eq_top_iff.1 htop] at hover; cases hover⟩

/-- **What has been performed is performed to the same again.** -/
theorem Repeats.done (hA : A.Repeats T) {items items' : List Content} (hp : Performed T items items') :
    A.gain Report.tally items ≠ ⊤ ∧ A.done items = items' := by
  have hS := hA.settling
  have hF := hA.framed
  induction hp with
  | nil => exact ⟨by simp, rfl⟩
  | text s _ ih =>
    refine ⟨?_, ?_⟩
    · rw [gain_cons hS hF, gain_text, zero_add]
      exact ih.1
    · rw [done_cons, done_text, ih.2]
      rfl
  | kept hd _ _ ihc ih =>
    refine ⟨?_, ?_⟩
    · rw [gain_cons hS hF, gain_node hd, WithTop.add_ne_top]
      exact ⟨ihc.1, ih.1⟩
    · rw [done_cons, done_node hS hF hd ihc.1, ihc.2, ih.2]
      rfl
  | aborted _ ht => exact absurd ht hA.ne_aborted
  | failed hd ht _ _ ihc ih =>
    obtain ⟨hgain, ho⟩ := hA.done_directive hd ht ihc
    refine ⟨?_, ?_⟩
    · rw [gain_cons hS hF, WithTop.add_ne_top]
      exact ⟨hgain, ih.1⟩
    · rw [done_cons, (Attempt.directive hS hF hd _).2 hgain, ho, ihc.2, ih.2]
      rfl
  | resolved hd ht _ _ ihc ih =>
    obtain ⟨hgain, ho⟩ := hA.done_directive hd ht ihc
    refine ⟨?_, ?_⟩
    · rw [gain_cons hS hF, WithTop.add_ne_top]
      exact ⟨hgain, ih.1⟩
    · rw [done_cons, (Attempt.directive hS hF hd _).2 hgain, ho, ih.2]
      rfl

theorem Repeats.perform (hA : A.Repeats T) {items items' : List Content} (hp : Performed T items items')
    {run : Run} (hgo : run.isOver = false) :
    (perform A run items).1 = items' ∧ (Attempt.perform A run items).2.isOver = false := by
  obtain ⟨hgain, hdone⟩ := hA.done hp
  have hnew : run.isOver = ({} : Run).isOver := hgo
  obtain ⟨htree, hover⟩ := hA.blind.perform hnew items
  have hgoes := goes_iff.2 hgain
  exact ⟨htree.trans ((perform_of_goes hA.settling hA.framed hgoes).trans hdone), hover.trans hgoes⟩

theorem Repeats.performSlots (hA : A.Repeats T) {slots slots' : SlotMap}
    (hp : List.Forall₂ (SlotPerformed T) slots slots') {run : Run} (hgo : run.isOver = false) :
    (performSlots A run slots).1 = slots' ∧ (Attempt.performSlots A run slots).2.isOver = false := by
  induction hp generalizing run with
  | nil =>
    rw [Attempt.performSlots]
    exact ⟨rfl, hgo⟩
  | @cons s s' rest rest' hs _ ih =>
    obtain ⟨name, content⟩ := s
    obtain ⟨name', content'⟩ := s'
    obtain ⟨rfl, hcontent⟩ : name' = name ∧ Performed T content content' := hs
    obtain ⟨htree, hover⟩ := hA.perform hcontent hgo
    obtain ⟨hrest, hover'⟩ := ih hover
    rw [Attempt.performSlots]
    exact ⟨by rw [htree, hrest], hover'⟩

/-- What has been performed is left alone. -/
theorem Repeats.perform_performed (hA : A.Repeats T) {items items' : List Content}
    (hp : Performed T items items') (hn : ∀ h ∈ Content.headsAll items, h.isInvalid = false) (run : Run) :
    Attempt.perform A run items' = (items', run) :=
  perform_eq_self A run (hp.settled (fun _ _ => hA.ne_aborted) (fun _ _ _ => hA.settled) hn).directive?_eq_none

theorem Repeats.performSlots_performed (hA : A.Repeats T) {slots slots' : SlotMap}
    (hp : List.Forall₂ (SlotPerformed T) slots slots')
    (hn : ∀ s ∈ slots, ∀ h ∈ Content.headsAll s.2, h.isInvalid = false) (run : Run) :
    Attempt.performSlots A run slots' = (slots', run) := by
  induction hp with
  | nil => rw [Attempt.performSlots]
  | cons hs _ ih =>
    rw [List.forall_mem_cons] at hn
    rw [Attempt.performSlots, hA.perform_performed hs.2 hn.1, ih hn.2]

theorem Repeats.settled_slots (hA : A.Repeats T) {slots slots' : SlotMap}
    (hp : List.Forall₂ (SlotPerformed T) slots slots')
    (hn : ∀ s ∈ slots, ∀ h ∈ Content.headsAll s.2, h.isInvalid = false) :
    ∀ s ∈ slots', Content.Settled s.2 := by
  induction hp with
  | nil => exact fun s hs => by cases hs
  | cons hs _ ih =>
    rw [List.forall_mem_cons] at hn
    exact List.forall_mem_cons.2
      ⟨hs.2.settled (fun _ _ => hA.ne_aborted) (fun _ _ _ => hA.settled) hn.1, ih hn.2⟩

/-- A directive that does not end the expansion has not been ended by its attempt. -/
theorem Settling.goes_concluded (hA : A.Settling) {h : Head} {cs : List Content} {slots : SlotMap}
    {r : Outcome × Run} (hgoes : (concluded A h cs slots r).2.isOver = false) : r.2.isOver = false := by
  obtain ⟨o, run⟩ := r
  cases o with
  | aborted => exact hgoes
  | failed => exact hA.goes.all.2.1 _ _ _ hgoes
  | resolved f => exact hA.goes.all.2.1 _ _ _ (hA.goes.release _ _ hgoes)

/-- A directive is performed alike, whatever has been done to its slots, if these are performed alike. -/
theorem Blind.directive (hB : A.Blind) {h : Head} {src : String} {cs : List Content} {slots : SlotMap}
    {run run' : Run} (hd : h.directive? = some src) (hn : slots.names = (SlotMap.ofChildren cs).names)
    (hslots : Alike (Attempt.performSlots A run (SlotMap.ofChildren cs)) (Attempt.performSlots A run' slots)) :
    Alike (Attempt.performItem A run (.node h cs)) (Attempt.performItem A run' (.node h (slots.putBack cs))) := by
  have hcov : (Attempt.performSlots A run (SlotMap.ofChildren cs)).1.Covers cs :=
    SlotMap.covers_of_names (names_performSlots run _)
  rw [performItem_directive hd, performItem_directive hd, SlotMap.ofChildren_putBack hn]
  obtain ⟨htree, hover⟩ := hslots
  rw [htree]
  obtain ⟨ho, hover'⟩ := hB src (Attempt.performSlots A run (SlotMap.ofChildren cs)).1 _ _ hover
  revert ho hover' hcov
  generalize (Attempt.performSlots A run (SlotMap.ofChildren cs)).1 = s
  generalize A src s (Attempt.performSlots A run (SlotMap.ofChildren cs)).2 = r
  generalize A src s (Attempt.performSlots A run' slots).2 = r'
  intro hcov ho hover'
  obtain ⟨o, after⟩ := r
  obtain ⟨o', after'⟩ := r'
  obtain rfl : o' = o := ho
  cases o' with
  | aborted => exact ⟨by rw [concluded, concluded, SlotMap.putBack_putBack slots hcov], hover'⟩
  | failed =>
    obtain ⟨hothers, hover⟩ := hB.performOthers slots hover' hcov
    exact ⟨by rw [concluded, concluded, hothers], hover⟩
  | resolved f => exact ⟨rfl, (hB.performOthers slots hover' hcov).2⟩

/-- Items with the same rest come to the same if they do so by themselves. -/
theorem Blind.perform_cons (hB : A.Blind) {item item' : Content} {run run' : Run} (rest : List Content)
    (hitem : Alike (Attempt.performItem A run item) (Attempt.performItem A run' item')) :
    Alike (Attempt.perform A run (item :: rest)) (Attempt.perform A run' (item' :: rest)) := by
  obtain ⟨hrest, hover⟩ := hB.perform hitem.2 rest
  rw [Attempt.perform, Attempt.perform]
  exact ⟨by rw [hitem.1, hrest], hover⟩

/-- A directive whose attempt was completed is attempted with the same outcome again. -/
theorem Repeats.performItem_completed (hA : A.Repeats T) {h : Head} {src : String} {cs : List Content}
    {slots : SlotMap} {o : Outcome} {run : Run} (hd : h.directive? = some src)
    (hslots : List.Forall₂ (SlotPerformed T) (SlotMap.ofChildren cs) slots) (ht : T src slots o)
    (hgo : run.isOver = false) :
    ∃ after, after.isOver = false ∧ Attempt.performItem A run (.node h cs) = concluded A h cs slots (o, after) := by
  obtain ⟨htree, hover⟩ := hA.performSlots hslots hgo
  obtain ⟨ho, hafter⟩ := hA.attempt ht hover
  exact ⟨_, hafter, by rw [performItem_directive hd, htree, ← ho]⟩

/-! ### Taking it up again -/

/-- A walk goes on in a slot of a directive, if it goes on behind that. -/
theorem Settling.goes_slot (hA : A.Settling) {h : Head} {src name : String} {cs c rest : List Content}
    {before after : SlotMap} {run : Run} (hd : h.directive? = some src)
    (hslots : SlotMap.ofChildren cs = before ++ (name, c) :: after)
    (hgoes : (Attempt.perform A run (.node h cs :: rest)).2.isOver = false) :
    (Attempt.perform A (Attempt.performSlots A run before).2 c).2.isOver = false := by
  rw [Attempt.perform, performItem_directive hd] at hgoes
  have hitem := hA.goes_concluded (hA.goes.all.2.2.2 _ _ hgoes)
  have hall := hA.goes.attempt _ _ _ hitem
  rw [hslots, performSlots_append, Attempt.performSlots] at hall
  exact hA.goes.all.2.2.1 _ _ hall

/-- Slots are taken up again in the one in which a walk has stopped. -/
theorem Repeats.resumes_slots (hA : A.Repeats T) {before before' after : SlotMap} {name : String}
    {c c' : List Content} {run run' : Run} (hbefore : List.Forall₂ (SlotPerformed T) before before')
    (hn : ∀ s ∈ before, ∀ h ∈ Content.headsAll s.2, h.isInvalid = false) (hgo : run.isOver = false)
    (hc : Alike (Attempt.perform A (Attempt.performSlots A run before).2 c) (Attempt.perform A run' c')) :
    Alike (Attempt.performSlots A run (before ++ (name, c) :: after))
      (Attempt.performSlots A run' (before' ++ (name, c') :: after)) := by
  have hdone := hA.performSlots hbefore hgo
  obtain ⟨hafter, hover⟩ := hA.blind.performSlots hc.2 after
  rw [performSlots_append, performSlots_append run', hA.performSlots_performed hbefore hn run',
    Attempt.performSlots, Attempt.performSlots]
  exact ⟨by rw [hdone.1, hc.1, hafter], hover⟩

end Attempt

theorem Halted.ne_nil {T : String → SlotMap → Outcome → Prop} {out items items' : List Content}
    (h : Halted T out items items') : items' ≠ [] := by
  cases h <;> exact List.cons_ne_nil _ _

/-- **A walk that was stopped can be taken up again.**  It comes to the same as a walk over the document
itself, unless that is stopped too, by what the first had released. -/
theorem Halted.resumes {A : Attempt} {T : String → SlotMap → Outcome → Prop} (hA : A.Repeats T)
    {out items items' : List Content} (h : Halted T out items items')
    (hn : ∀ h ∈ Content.headsAll items, h.isInvalid = false) {run run' : Run} (hgo : run.isOver = false)
    (hgo' : run'.isOver = false) (hout : out = [] ∨ (A.perform run items).2.isOver = false) :
    Alike (A.perform run items) (A.perform run' items') := by
  have hB := hA.blind
  have hgoes := hA.settling.goes.all
  induction h generalizing run run' with
  | @later out rest rest' item item' hitem hrest ih =>
    have hfirst := hA.perform hitem hgo
    have hfirst' := hA.perform_performed hitem (Content.forall_headsAll_cons.1 hn).1 run'
    rw [Attempt.perform_cons] at hout ⊢
    rw [Attempt.perform_cons run', hfirst']
    obtain ⟨htree, hover⟩ := ih (Content.forall_headsAll_cons.1 hn).2 hfirst.2 hgo' hout
    exact ⟨by rw [htree, hfirst.1], hover⟩
  | @inside out cs cs' h hd hcs rest ih =>
    refine hB.perform_cons rest ?_
    rw [Attempt.performItem_kept hd, Attempt.performItem_kept hd]
    have hcs' := ih (fun g hg => hn g (by simp [hg])) hgo hgo' (hout.imp id fun ho => ?_)
    · exact ⟨by rw [hcs'.1], hcs'.2⟩
    · rw [Attempt.perform, Attempt.performItem_kept hd] at ho
      exact hgoes.2.2.2 _ _ ho
  | @slot out cs c c' h src name before before' after hd hslots hbefore hc rest ih =>
    have hvalid := SlotMap.forall_heads_ofChildren (Content.forall_headsAll_cons.1 hn).1
    rw [hslots, List.forall_mem_append, List.forall_mem_cons] at hvalid
    refine hB.perform_cons rest (hB.directive hd ?_ ?_)
    · have hnames := SlotPerformed.names hbefore
      simp only [SlotMap.names] at hnames
      simp [hslots, SlotMap.names, hnames]
    · rw [hslots]
      exact hA.resumes_slots hbefore hvalid.1 hgo
        (ih hvalid.2.1 (hA.performSlots hbefore hgo).2 hgo' (hout.imp id (hA.settling.goes_slot hd hslots)))
  | @struck cs h src slots hd hslots rest =>
    refine hB.perform_cons rest (hB.directive hd (SlotPerformed.names hslots) ?_)
    have hvalid := SlotMap.forall_heads_ofChildren (Content.forall_headsAll_cons.1 hn).1
    obtain ⟨htree, hover⟩ := hA.performSlots hslots hgo
    rw [hA.performSlots_performed hslots hvalid run']
    exact ⟨htree.symm, hgo'.trans hover.symm⟩
  | @failed out cs cs' h src slots hd hslots ht hcs rest ih =>
    have hsettled := hA.settled_slots hslots
      (SlotMap.forall_heads_ofChildren (Content.forall_headsAll_cons.1 hn).1)
    obtain ⟨after, hafter, hitem⟩ := hA.performItem_completed hd hslots ht hgo
    -- the children are performed around the slots, in the second walk all of them
    have hothers : Alike (A.performOthers slots after cs) (A.perform after (slots.putBack cs)) :=
      hB.perform_putBack rfl (SlotMap.covers_of_names (SlotPerformed.names hslots)) hsettled
    refine hB.perform_cons rest ?_
    have hresumed := ih ?_ hafter hgo' (hout.imp id fun ho => ?_)
    · rw [hitem, Attempt.performItem_kept (by simp [Head.directive?, Head.settle])]
      have := hothers.trans hresumed
      exact ⟨by rw [this.1]; rfl, this.2⟩
    · intro g hg
      rcases SlotMap.mem_headsAll_putBack hg with hg | ⟨s, hs, hg⟩
      · exact hn g (by simp [hg])
      · exact (hsettled s hs).isInvalid_eq_false g hg
    · rw [Attempt.perform, hitem] at ho
      exact hothers.2.trans (hgoes.2.2.2 _ _ ho)
  | @resolved out cs cs' f h src slots hd hslots ht hcs rest ih =>
    have hgoesAll := hout.resolve_left fun hnil => hcs.ne_nil (List.append_eq_nil_iff.1 hnil).2
    obtain ⟨after, hafter, hitem⟩ := hA.performItem_completed hd hslots ht hgo
    refine hB.perform_cons rest ?_
    rw [Attempt.performItem_kept (h := h.resolved) (by simp [Head.directive?, Head.resolved]),
      Attempt.perform_eq_self A run' (hA.settled ht).directive?_eq_none]
    rw [Attempt.perform, hitem] at hgoesAll
    rw [hitem]
    exact ⟨rfl, hgo'.trans (hgoes.2.2.2 _ _ hgoesAll).symm⟩

end PageComposer
