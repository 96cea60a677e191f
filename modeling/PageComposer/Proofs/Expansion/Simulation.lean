/-
# Walks that run alike

Two ways of attempting directives are compared by a relation of their runs.  If they leave related runs at
each attempt, with one outcome, they leave related runs of a walk, with one document
(`Attempt.Simulates.perform`).  The attempts need to agree on the references in the document only, and as
long as the run that the first walk ends in is good.  If they do the same there, the walks are the same
(`Attempt.perform_eq_of_agree`).
-/

import PageComposer.Proofs.Expansion.Attempt
import PageComposer.Proofs.Expansion.Tally

namespace PageComposer

namespace Content

/-- The references of all directives have a property. -/
def Refers (p : String → Prop) (items : List Content) : Prop :=
  ∀ h ∈ headsAll items, ∀ src, h.directive? = some src → p src

theorem refers_iff {p : String → Prop} {items : List Content} :
    Refers p items ↔ ∀ src ∈ directives items, p src := by
  constructor
  · intro h src hs
    obtain ⟨g, hg, hd⟩ := List.mem_filterMap.1 hs
    exact h g hg src hd
  · intro h g hg src hd
    exact h src (List.mem_filterMap.2 ⟨g, hg, hd⟩)

theorem refers_cons {p : String → Prop} {item : Content} {rest : List Content} :
    Refers p (item :: rest) ↔ Refers p [item] ∧ Refers p rest := by
  rw [refers_iff, refers_iff, refers_iff, directives_cons]
  simp [or_imp, forall_and]

theorem refers_node {p : String → Prop} {h : Head} {cs : List Content} :
    Refers p [.node h cs] ↔ (∀ src, h.directive? = some src → p src) ∧ Refers p cs := by
  rw [refers_iff, refers_iff, directives_node]
  simp [or_imp, forall_and]

end Content

namespace Attempt

/-- Attempts that leave related runs, with one outcome, at references with the property `p` and as long as
the run of the first is good. -/
structure Simulates (A B : Attempt) (S : Run → Run → Prop) (p : String → Prop) (Good : Run → Prop) :
    Prop where
  good : A.Respects fun run run' => Good run' → Good run
  attempt : ∀ {src slots run run'}, p src → S run run' → Good (A src slots run).2 →
    (B src slots run').1 = (A src slots run).1 ∧ S (A src slots run).2 (B src slots run').2
  skip : ∀ {run run'} sources, S run run' → S (Run.skip run sources) (Run.skip run' sources)
  release : ∀ {run run'} items, S run run' → S (Run.release run items) (Run.release run' items)

/-- What the second of two walks comes to: the same as the first, with a related run, if that leaves a good
run. -/
def Follows {α : Type} (S : Run → Run → Prop) (Good : Run → Prop) (r r' : α × Run) : Prop :=
  Good r.2 → r'.1 = r.1 ∧ S r.2 r'.2

variable {A B : Attempt} {S : Run → Run → Prop} {p : String → Prop} {Good : Run → Prop}

/-- **Attempts that run alike make walks that run alike.** -/
theorem Simulates.all (hS : A.Simulates B S p Good) :
    (∀ run item run', S run run' → Content.Refers p [item] →
      Follows S Good (performItem A run item) (performItem B run' item)) ∧
    (∀ slots run children run', S run run' → Content.Refers p children →
      Follows S Good (performOthers A slots run children) (performOthers B slots run' children)) ∧
    (∀ run slots run', S run run' → (∀ s ∈ slots, Content.Refers p s.2) →
      Follows S Good (performSlots A run slots) (performSlots B run' slots)) ∧
    ∀ run items run', S run run' → Content.Refers p items →
      Follows S Good (perform A run items) (perform B run' items) := by
  obtain ⟨-, goodOthers, goodSlots, goodPerform⟩ := hS.good.all
  -- a directive: its slots, then itself
  have directive : ∀ {run' mid after : Run} {h : Head} {src : String} {cs : List Content}
      {slots : SlotMap} {o : Outcome}, h.directive? = some src → Content.Refers p [.node h cs] →
      A src slots mid = (o, after) → Good after →
      ((∀ s ∈ SlotMap.ofChildren cs, Content.Refers p s.2) →
        Follows S Good (slots, mid) (performSlots B run' (SlotMap.ofChildren cs))) →
      Content.Refers p cs ∧ (performSlots B run' (SlotMap.ofChildren cs)).1 = slots ∧
        ∃ after', B src slots (performSlots B run' (SlotMap.ofChildren cs)).2 = (o, after') ∧
          S after after' := by
    intro run' mid after h src cs slots o hd hp ha hg ih
    obtain ⟨hsrc, hcs⟩ := Content.refers_node.1 hp
    have hgood := hS.good.attempt src slots mid
    rw [ha] at hgood
    obtain ⟨hslots, hmid⟩ := ih (SlotMap.forall_heads_ofChildren hp) (hgood hg)
    have hg : Good (A src slots mid).2 := by rw [ha]; exact hg
    obtain ⟨houtcome, hafter⟩ := hS.attempt (hsrc src hd) hmid hg
    rw [ha] at houtcome hafter
    exact ⟨hcs, hslots, (B src slots (performSlots B run' (SlotMap.ofChildren cs)).2).2,
      Prod.ext houtcome rfl, hafter⟩
  refine walk_induction A
    (fun run item r => ∀ run', S run run' → Content.Refers p [item] →
      Follows S Good r (performItem B run' item))
    (fun slots run children r => ∀ run', S run run' → Content.Refers p children →
      Follows S Good r (performOthers B slots run' children))
    (fun run slots r => ∀ run', S run run' → (∀ s ∈ slots, Content.Refers p s.2) →
      Follows S Good r (performSlots B run' slots))
    (fun run items r => ∀ run', S run run' → Content.Refers p items →
      Follows S Good r (perform B run' items))
    ?text ?kept ?aborted ?failed ?resolved ?childless ?loser ?winner ?unbound ?slot ?nil ?cons
  case text =>
    intro run s run' hrun _ _
    rw [performItem]
    exact ⟨rfl, hrun⟩
  case kept =>
    intro run h cs hd ih run' hrun hp hg
    obtain ⟨htree, hstep⟩ := ih run' hrun (Content.refers_node.1 hp).2 hg
    rw [performItem_kept hd, htree]
    exact ⟨rfl, hstep⟩
  case aborted =>
    intro run h cs src slots mid after hd _ ha ihs run' hrun hp hg
    obtain ⟨-, hslots, after', hB, hafter⟩ := directive hd hp ha hg (ihs run' hrun)
    simpa only [performItem, hd, hslots, hB, true_and] using hafter
  case failed =>
    intro run h cs src slots mid after hd _ ha ihs iho run' hrun hp hg
    obtain ⟨hcs, hslots, after', hB, hafter⟩ := directive hd hp ha (goodOthers _ _ _ hg) (ihs run' hrun)
    obtain ⟨htree, hstep⟩ := iho after' hafter hcs hg
    simpa only [performItem, hd, hslots, hB, htree, true_and] using hstep
  case resolved =>
    intro run h cs src slots mid f after hd _ ha ihs iho run' hrun hp hg
    have hg := hS.good.release _ _ hg
    obtain ⟨hcs, hslots, after', hB, hafter⟩ := directive hd hp ha (goodOthers _ _ _ hg) (ihs run' hrun)
    obtain ⟨htree, hstep⟩ := iho after' hafter hcs hg
    simpa only [performItem, hd, hslots, hB, htree, true_and] using hS.release _ hstep
  case childless =>
    intro slots run run' hrun _ _
    rw [performOthers]
    exact ⟨rfl, hrun⟩
  case loser =>
    intro slots run item rest hc ihi ih run' hrun hp hg
    obtain ⟨hitem, hrest⟩ := Content.refers_cons.1 hp
    obtain ⟨hfirst, hmid⟩ := ihi run' hrun hitem (goodOthers _ _ _ hg)
    obtain ⟨htree, hstep⟩ := ih _ hmid hrest hg
    rw [performOthers_of_loser slots run' hc, hfirst, htree]
    exact ⟨rfl, hstep⟩
  case winner =>
    intro slots run h cs rest name hb hlast ih run' hrun hp hg
    obtain ⟨htree, hstep⟩ := ih _ (hS.skip _ hrun) (Content.refers_cons.1 hp).2 hg
    rw [performOthers_of_winner slots run' hb hlast, htree]
    exact ⟨rfl, hstep⟩
  case unbound =>
    intro run run' hrun _ _
    rw [performSlots]
    exact ⟨rfl, hrun⟩
  case slot =>
    intro run name content rest ihc ih run' hrun hp hg
    rw [List.forall_mem_cons] at hp
    obtain ⟨hfirst, hmid⟩ := ihc run' hrun hp.1 (goodSlots _ _ hg)
    obtain ⟨htree, hstep⟩ := ih _ hmid hp.2 hg
    rw [performSlots, hfirst, htree]
    exact ⟨rfl, hstep⟩
  case nil =>
    intro run run' hrun _ _
    rw [perform]
    exact ⟨rfl, hrun⟩
  case cons =>
    intro run item rest ihi ih run' hrun hp hg
    obtain ⟨hitem, hrest⟩ := Content.refers_cons.1 hp
    obtain ⟨hfirst, hmid⟩ := ihi run' hrun hitem (goodPerform _ _ hg)
    obtain ⟨htree, hstep⟩ := ih _ hmid hrest hg
    rw [perform, hfirst, htree]
    exact ⟨rfl, hstep⟩

/-- A document is performed alike. -/
theorem Simulates.perform (hS : A.Simulates B S p Good) {run run' : Run} (hrun : S run run')
    {items : List Content} (hp : Content.Refers p items) (hg : Good (perform A run items).2) :
    (Attempt.perform B run' items).1 = (Attempt.perform A run items).1 ∧
      S (Attempt.perform A run items).2 (Attempt.perform B run' items).2 :=
  hS.all.2.2.2 run items run' hrun hp hg

/-- **Attempts that do the same as long as the run is good make the same walk.** -/
theorem perform_eq_of_agree (good : A.Respects fun run run' => Good run' → Good run)
    (same : ∀ {src slots run}, p src → Good (A src slots run).2 → B src slots run = A src slots run)
    {run : Run} {items : List Content} (hp : Content.Refers p items) (hg : Good (perform A run items).2) :
    perform B run items = perform A run items := by
  have hS : A.Simulates B Eq p Good := {
    good := good
    attempt := by
      rintro src slots run _ hsrc rfl hg
      rw [same hsrc hg]
      exact ⟨rfl, rfl⟩
    skip := by
      rintro run _ sources rfl
      rfl
    release := by
      rintro run _ items rfl
      rfl }
  obtain ⟨htree, hrun⟩ := hS.perform rfl hp hg
  exact Prod.ext htree hrun.symm

end Attempt
end PageComposer
