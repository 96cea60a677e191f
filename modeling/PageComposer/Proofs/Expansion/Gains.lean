/-
# What a walk adds to a report

A walk adds the same to every run that goes on (`Attempt.cost_perform`), so what it adds is told by what it
adds to a new one (`Attempt.gain`), in any measure of reports; an expansion that has ended is beyond all
amounts.  What each part of a document adds:

| part | adds |
| --- | --- |
| text | nothing |
| node that is no directive | what its content adds |
| directive | what its slots add, what the attempt adds, what its other children add |

The attempt is made with the slots as they have been performed (`Attempt.ready`).
-/

import PageComposer.Proofs.Expansion.Frame
import PageComposer.Proofs.Expansion.Winners

namespace PageComposer

variable {M : Type} [AddMonoid M] {μ : Report.Measure M}

namespace Attempt

/-- What each of some items becomes in a walk of its own. -/
def done (A : Attempt) (items : List Content) : List Content :=
  items.map fun item => (performItem A {} item).1

/-- What a content list adds to a report. -/
def gain (μ : Report.Measure M) (A : Attempt) (items : List Content) : WithTop M :=
  (A.perform {} items).2.cost μ

/-- What an attempt adds to a report. -/
def trial (μ : Report.Measure M) (A : Attempt) (src : String) (slots : SlotMap) : WithTop M :=
  (A src slots {}).2.cost μ

/-- Slots as they are when their directive is attempted. -/
def ready (A : Attempt) (slots : SlotMap) : SlotMap := slots.map fun s => (s.1, A.done s.2)

/-- What slots add to a report, one after the other. -/
def gainSlots (μ : Report.Measure M) (A : Attempt) (slots : SlotMap) : WithTop M :=
  (slots.map fun s => A.gain μ s.2).sum

variable {A : Attempt}

@[simp] theorem done_nil : A.done [] = [] := rfl

theorem done_cons (item : Content) (rest : List Content) : A.done (item :: rest) = A.done [item] ++ A.done rest :=
  rfl

@[simp] theorem gainSlots_nil : A.gainSlots μ [] = 0 := rfl

theorem gainSlots_cons (s : String × List Content) (rest : SlotMap) :
    A.gainSlots μ (s :: rest) = A.gain μ s.2 + A.gainSlots μ rest := by
  rw [gainSlots, List.map_cons, List.sum_cons]
  rfl

@[simp] theorem gain_nil : A.gain μ [] = 0 := by
  simp [gain, perform, Run.cost, Run.isOver, μ.of_new]

theorem perform_singleton (run : Run) (item : Content) :
    A.perform run [item] = ([(performItem A run item).1], (performItem A run item).2) := by
  simp [perform]

theorem perform_cons (run : Run) (item : Content) (rest : List Content) :
    A.perform run (item :: rest) =
      ((A.perform run [item]).1 ++ (A.perform (A.perform run [item]).2 rest).1,
        (A.perform (A.perform run [item]).2 rest).2) := by
  rw [perform_singleton, perform]
  rfl

section

variable (hA : A.Settling) (hF : A.Framed μ)

include hA in
theorem isOver_perform {run : Run} (ho : run.isOver = true) (items : List Content) :
    (A.perform run items).2.isOver = true := by
  cases hg : (A.perform run items).2.isOver with
  | true => rfl
  | false => rw [hA.goes.perform run items hg] at ho; cases ho

include hA in
theorem isOver_attempt {run : Run} (ho : run.isOver = true) (src : String) (slots : SlotMap) :
    (A src slots run).2.isOver = true := by
  cases hg : (A src slots run).2.isOver with
  | true => rfl
  | false => rw [hA.goes.attempt src slots run hg] at ho; cases ho

include hA hF in
/-- **A walk adds the same to every run.** -/
theorem cost_perform (run : Run) (items : List Content) :
    (A.perform run items).2.cost μ = run.cost μ + A.gain μ items := by
  cases ho : run.isOver with
  | true => rw [Run.cost_of_isOver (isOver_perform hA ho items), Run.cost_of_isOver ho, WithTop.top_add]
  | false =>
    rw [(hF.perform (Run.shifted_of_goes ho) items).2.cost, Run.cost_of_goes ho]
    rfl

include hA hF in
/-- A walk that does not end the expansion makes of each item what a walk of its own makes of it. -/
theorem perform_of_goes {run : Run} {items : List Content} (hgoes : (A.perform run items).2.isOver = false) :
    (A.perform run items).1 = A.done items := by
  induction items generalizing run with
  | nil => simp [perform]
  | cons item rest ih =>
    rw [perform_cons] at hgoes ⊢
    have hfirst := hA.goes.perform _ _ hgoes
    have hitem := (hF.perform (Run.shifted_of_goes (hA.goes.perform _ _ hfirst)) [item]).1
    rw [perform_singleton, perform_singleton] at hitem
    rw [ih hgoes, perform_singleton, hitem]
    rfl

include hA hF in
theorem cost_attempt (run : Run) (src : String) (slots : SlotMap) :
    (A src slots run).2.cost μ = run.cost μ + A.trial μ src slots := by
  cases ho : run.isOver with
  | true => rw [Run.cost_of_isOver (isOver_attempt hA ho src slots), Run.cost_of_isOver ho, WithTop.top_add]
  | false =>
    rw [(hF.alike (.refl slots) (Run.shifted_of_goes ho)).2.cost, Run.cost_of_goes ho]
    rfl

include hF in
theorem trial_congr {slots slots' : SlotMap} (h : slots.Same slots') (src : String) :
    A.trial μ src slots = A.trial μ src slots' ∧ (A src slots {}).1 = (A src slots' {}).1 := by
  have hnew : Run.Shifted μ (μ.of ({} : Run).report) {} {} := Run.shifted_of_goes rfl
  obtain ⟨hout, hshift⟩ : (A src slots' {}).1 = (A src slots {}).1 ∧
      Run.Shifted μ _ (A src slots {}).2 (A src slots' {}).2 := hF.alike h hnew
  refine ⟨?_, hout.symm⟩
  rw [trial, trial, hshift.cost, μ.of_new, WithTop.coe_zero, zero_add]

include hA hF in
/-- A list adds what its items add, in order. -/
theorem gain_cons (item : Content) (rest : List Content) :
    A.gain μ (item :: rest) = A.gain μ [item] + A.gain μ rest := by
  rw [gain, perform_cons, cost_perform hA hF]
  rfl

include hA hF in
theorem gain_eq_sum (items : List Content) :
    A.gain μ items = (items.map fun item => A.gain μ [item]).sum := by
  induction items with
  | nil => simp
  | cons item rest ih => rw [gain_cons hA hF, ih, List.map_cons, List.sum_cons]

include hA hF in
theorem gain_append (items more : List Content) :
    A.gain μ (items ++ more) = A.gain μ items + A.gain μ more := by
  rw [gain_eq_sum hA hF, gain_eq_sum hA hF items, gain_eq_sum hA hF more, List.map_append, List.sum_append]

@[simp] theorem gain_text (s : String) : A.gain μ [.text s] = 0 := by
  simp [gain, perform, performItem, Run.cost, Run.isOver, μ.of_new]

@[simp] theorem done_text (s : String) : A.done [.text s] = [.text s] := by
  simp [done, performItem]

/-- A node that is no directive adds what its content adds. -/
theorem gain_node {h : Head} (hd : h.directive? = none) (cs : List Content) :
    A.gain μ [.node h cs] = A.gain μ cs := by
  rw [gain, perform_singleton, performItem, hd]
  rfl

include hA hF in
theorem ne_top_of_gain {items : List Content} (h : A.gain μ items ≠ ⊤) :
    ∀ item ∈ items, A.gain μ [item] ≠ ⊤ := by
  induction items with
  | nil => simp
  | cons item rest ih =>
    rw [gain_cons hA hF, WithTop.add_ne_top] at h
    exact List.forall_mem_cons.2 ⟨h.1, ih h.2⟩

include hA hF in
theorem done_node {h : Head} (hd : h.directive? = none) {cs : List Content} (hgoes : A.gain μ cs ≠ ⊤) :
    A.done [.node h cs] = [.node h (A.done cs)] := by
  have hcs : (A.perform {} cs).1 = A.done cs := perform_of_goes hA hF
    (Bool.eq_false_iff.2 fun ho => hgoes (Run.cost_eq_top_iff.2 ho))
  rw [done, List.map_singleton, performItem, hd]
  dsimp only
  rw [hcs]

/-! ### Directives -/

theorem get?_ready (slots : SlotMap) (name : String) :
    (A.ready slots).get? name = (slots.get? name).map A.done := SlotMap.get?_map slots A.done name

/-- Slots that do not end the expansion have no content that does. -/
theorem ne_top_of_gainSlots {slots : SlotMap} (h : A.gainSlots μ slots ≠ ⊤) :
    ∀ s ∈ slots, A.gain μ s.2 ≠ ⊤ := by
  induction slots with
  | nil => simp
  | cons s rest ih =>
    rw [gainSlots_cons, WithTop.add_ne_top] at h
    exact List.forall_mem_cons.2 ⟨h.1, ih h.2⟩

include hA hF in
theorem cost_performSlots (run : Run) (slots : SlotMap) :
    (performSlots A run slots).2.cost μ = run.cost μ + A.gainSlots μ slots := by
  induction slots generalizing run with
  | nil => simp [performSlots]
  | cons s rest ih =>
    rw [performSlots, ih, cost_perform hA hF, gainSlots_cons, add_assoc]

include hA hF in
theorem performSlots_of_goes {run : Run} {slots : SlotMap}
    (hgoes : (performSlots A run slots).2.isOver = false) :
    (performSlots A run slots).1 = A.ready slots := by
  induction slots generalizing run with
  | nil => simp [performSlots, ready]
  | cons s rest ih =>
    rw [performSlots] at hgoes ⊢
    rw [ih hgoes, perform_of_goes hA hF (hA.goes.all.2.2.1 _ _ hgoes)]
    rfl

include hA hF in
theorem cost_performItem (run : Run) (item : Content) :
    (performItem A run item).2.cost μ = run.cost μ + A.gain μ [item] := by
  have := cost_perform hA hF run [item]
  rwa [perform_singleton] at this

include hA hF in
/-- The other children add what they add by themselves. -/
theorem cost_performOthers (slots : SlotMap) (run : Run) (children : List Content) :
    (performOthers A slots run children).2.cost μ = run.cost μ + A.gain μ (SlotMap.losers children) := by
  induction children using SlotMap.children_induction generalizing run with
  | nil => simp [performOthers, SlotMap.losers]
  | loser item rest hc ih =>
    rw [performOthers_of_loser slots run hc, SlotMap.losers_of_loser hc, gain_cons hA hF, ih,
      cost_performItem hA hF, add_assoc]
  | winner h cs rest name hb hlast ih =>
    rw [performOthers_of_winner slots run hb hlast,
      SlotMap.losers_of_winner (SlotMap.counts_of_winner hb hlast), ih]
    congr 1
    exact Run.cost_congr (Run.isOver_of_like (run.like_skip _)) (Run.report_skip run _)

include hA hF in
/-- The other children become what they become by themselves, around slots that have been performed. -/
theorem performOthers_of_goes {slots : SlotMap} {run : Run} {children : List Content}
    (hslots : ∀ h cs name, .node h cs ∈ SlotMap.winners children →
      SlotMap.binding? (.node h cs) = some (name, cs) → slots.get? name = some (A.done cs))
    (hperformed : ∀ item ∈ SlotMap.winners children, A.gain μ [item] ≠ ⊤)
    (hgoes : (performOthers A slots run children).2.isOver = false) :
    (performOthers A slots run children).1 = A.done children := by
  have goes := hA.goes.all.2.1
  have hitem : ∀ {run : Run} {item : Content}, (performItem A run item).2.isOver = false →
      (performItem A run item).1 = (performItem A {} item).1 := by
    intro run item hg
    have : (A.perform run [item]).1 = A.done [item] := perform_of_goes hA hF (by rwa [perform_singleton])
    rw [perform_singleton] at this
    exact List.singleton_injective this
  induction children using SlotMap.children_induction generalizing run with
  | nil => simp [performOthers]
  | loser item rest hc ih =>
    rw [SlotMap.winners_of_loser hc] at hslots hperformed
    rw [performOthers_of_loser slots run hc] at hgoes ⊢
    dsimp only at hgoes ⊢
    rw [hitem (goes _ _ _ hgoes), ih hslots hperformed hgoes]
    rfl
  | winner h cs rest name hb hlast ih =>
    rw [SlotMap.winners_of_winner (SlotMap.counts_of_winner hb hlast)] at hslots hperformed
    have hd : h.directive? = none := SlotMap.directive?_of_binding? hb
    have hget := hslots h cs name (List.mem_cons_self ..) hb
    rw [List.forall_mem_cons, gain_node hd] at hperformed
    rw [performOthers_of_winner slots run hb hlast] at hgoes ⊢
    dsimp only at hgoes ⊢
    rw [ih (fun h cs name hm => hslots h cs name (List.mem_cons_of_mem _ hm)) hperformed.2 hgoes, hget,
      done_cons (.node h cs), done_node hA hF hd hperformed.1]
    rfl

include hA hF in
/-- The slots of a directive, once performed, are in the place of what they were. -/
theorem performOthers_ready {run : Run} {cs : List Content}
    (hslots : A.gainSlots μ (SlotMap.ofChildren cs) ≠ ⊤)
    (hgoes : (performOthers A (A.ready (SlotMap.ofChildren cs)) run cs).2.isOver = false) :
    (performOthers A (A.ready (SlotMap.ofChildren cs)) run cs).1 = A.done cs := by
  refine performOthers_of_goes hA hF (fun h c name hw hb => ?_) (fun item hw => ?_) hgoes
  · obtain ⟨b, hb', hget⟩ := SlotMap.get?_ofChildren_of_mem_winners hw
    obtain rfl := Option.some.inj (hb.symm.trans hb')
    rw [get?_ready, hget]
    rfl
  · obtain ⟨b, hb, hget⟩ := SlotMap.get?_ofChildren_of_mem_winners hw
    have := ne_top_of_gainSlots hslots _ (SlotMap.mem_of_get? hget)
    cases item with
    | text s => cases hb
    | node h c =>
      obtain ⟨name, c'⟩ := b
      rw [gain_node (SlotMap.directive?_of_binding? hb)]
      exact SlotMap.snd_of_binding? hb ▸ this

/-- A directive and the run after its attempt. -/
def concluded (A : Attempt) (h : Head) (cs : List Content) (slots : SlotMap) : Outcome × Run → Content × Run
  | (.aborted, run) => (.node h (slots.putBack cs), run)
  | (.failed, run) =>
    (.node h.settle (performOthers A slots run cs).1, (performOthers A slots run cs).2)
  | (.resolved fragment, run) =>
    (.node h.resolved fragment,
      (performOthers A slots run cs).2.release (performOthers A slots run cs).1)

theorem performItem_directive {h : Head} {src : String} (hd : h.directive? = some src) (cs : List Content)
    (run : Run) :
    performItem A run (.node h cs) =
      concluded A h cs (performSlots A run (SlotMap.ofChildren cs)).1
        (A src (performSlots A run (SlotMap.ofChildren cs)).1
          (performSlots A run (SlotMap.ofChildren cs)).2) := by
  rw [performItem, hd]
  dsimp only
  rcases A src (performSlots A run (SlotMap.ofChildren cs)).1
    (performSlots A run (SlotMap.ofChildren cs)).2 with ⟨_ | _ | _, _⟩ <;> rfl

include hA hF in
theorem cost_concluded (h : Head) (cs : List Content) (slots : SlotMap) {r : Outcome × Run}
    (haborted : r.1 = .aborted → r.2.isOver = true) :
    (concluded A h cs slots r).2.cost μ = r.2.cost μ + A.gain μ (SlotMap.losers cs) := by
  obtain ⟨o, run⟩ := r
  cases o with
  | aborted =>
    have ho : run.isOver = true := haborted rfl
    rw [concluded, Run.cost_of_isOver ho, WithTop.top_add]
  | failed => exact cost_performOthers hA hF slots run cs
  | resolved f => exact cost_performOthers hA hF slots run cs

include hA hF in
/-- **What a directive adds and becomes.**  It adds what its slots, the attempt with these performed, and its
other children add; where that does not end the expansion, it becomes a fragment or stays, settled. -/
theorem directive {h : Head} {src : String} (hd : h.directive? = some src) (cs : List Content) :
    A.gain μ [.node h cs] = A.gainSlots μ (SlotMap.ofChildren cs) +
        A.trial μ src (A.ready (SlotMap.ofChildren cs)) + A.gain μ (SlotMap.losers cs) ∧
      (A.gain μ [.node h cs] ≠ ⊤ → A.done [.node h cs] =
        [match (A src (A.ready (SlotMap.ofChildren cs)) {}).1 with
          | .resolved fragment => .node h.resolved fragment
          | _ => .node h.settle (A.done cs)]) := by
  have hslots := cost_performSlots hA hF {} (SlotMap.ofChildren cs)
  have hready : (performSlots A {} (SlotMap.ofChildren cs)).2.isOver = false →
      (performSlots A {} (SlotMap.ofChildren cs)).1 = A.ready (SlotMap.ofChildren cs) :=
    performSlots_of_goes hA hF
  have hnew : Run.cost μ {} = 0 := by simp [Run.cost, Run.isOver, μ.of_new]
  rw [hnew, zero_add] at hslots
  rw [gain, perform_singleton, done, List.map_singleton, performItem_directive hd]
  revert hslots hready
  generalize performSlots A {} (SlotMap.ofChildren cs) = s
  intro hslots hready
  have hattempt := cost_attempt hA hF s.2 src s.1
  have haborted := hA.aborted src s.1 s.2
  -- unless the slots have ended the expansion, the attempt is made with them as they are then
  have hcost : (A src s.1 s.2).2.cost μ =
      A.gainSlots μ (SlotMap.ofChildren cs) + A.trial μ src (A.ready (SlotMap.ofChildren cs)) := by
    rw [hattempt, hslots]
    cases ho : s.2.isOver with
    | true => rw [← hslots, Run.cost_of_isOver ho, WithTop.top_add, WithTop.top_add]
    | false => rw [hready ho]
  refine ⟨by rw [cost_concluded hA hF h cs s.1 haborted, hcost], fun hgoes => ?_⟩
  rw [cost_concluded hA hF h cs s.1 haborted, WithTop.add_ne_top] at hgoes
  have hafter : (A src s.1 s.2).2.isOver = false :=
    Bool.eq_false_iff.2 fun ho => hgoes.1 (Run.cost_of_isOver ho)
  have ho := hA.goes.attempt src s.1 s.2 hafter
  have hslotsGo : A.gainSlots μ (SlotMap.ofChildren cs) ≠ ⊤ := by
    rw [← hslots, Run.cost_of_goes ho]
    exact WithTop.coe_ne_top
  have houtcome : (A src s.1 s.2).1 = (A src s.1 {}).1 := (hF.alike (.refl s.1) (Run.shifted_of_goes ho)).1
  rw [hready ho] at hafter haborted houtcome hgoes ⊢
  rw [← houtcome]
  revert hafter haborted hgoes
  generalize A src (A.ready (SlotMap.ofChildren cs)) s.2 = r
  intro haborted hgoes hafter
  obtain ⟨o, run⟩ := r
  cases o with
  | aborted => rw [haborted rfl] at hafter; cases hafter
  | failed =>
    have hothers : (performOthers A (A.ready (SlotMap.ofChildren cs)) run cs).2.isOver = false := by
      refine Bool.eq_false_iff.2 fun h => ?_
      have := cost_performOthers hA hF (A.ready (SlotMap.ofChildren cs)) run cs
      rw [Run.cost_of_isOver h] at this
      exact WithTop.add_ne_top.2 hgoes this.symm
    rw [concluded, performOthers_ready hA hF hslotsGo hothers]
  | resolved f => rfl

end

end Attempt
end PageComposer
