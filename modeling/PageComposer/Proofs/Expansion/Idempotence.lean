/-
# Expanding twice

An expansion that ends without a fault leaves no include pending: each has been resolved, has failed, or
had no valid reference. So a second expansion finds nothing to announce and no directive to attempt, and
leaves the document and its own run as they are (`Expander.expand_idempotent`), whatever the second finds
in the files.
-/

import PageComposer.Proofs.Expansion.Expanded

namespace PageComposer

namespace Content

/-- No include of a content list is pending. -/
def Settled (items : List Content) : Prop :=
  ∀ h ∈ headsAll items, h.isInclude = true → h.settled = true

theorem settled_node {h : Head} {cs rest : List Content}
    (hh : h.isInclude = true → h.settled = true) (hcs : Settled cs) (hrest : Settled rest) :
    Settled (.node h cs :: rest) := by
  intro g hg
  simp only [headsAll_node, List.mem_cons, List.mem_append] at hg
  rcases hg with rfl | hg | hg
  · exact hh
  · exact hcs g hg
  · exact hrest g hg

theorem Settled.directive?_eq_none {items : List Content} (hs : Settled items) :
    ∀ h ∈ headsAll items, h.directive? = none := by
  intro h hh
  cases hd : h.directive? with
  | none => rfl
  | some src =>
    obtain ⟨hp, hi, _⟩ := Head.directive?_eq_some_iff.1 hd
    rw [hs h hh hi] at hp
    cases hp

theorem Settled.isInvalid_eq_false {items : List Content} (hs : Settled items) :
    ∀ h ∈ headsAll items, h.isInvalid = false := by
  intro h hh
  cases hv : h.isInvalid with
  | false => rfl
  | true =>
    have hset := hs h hh (Head.isInclude_of_isInvalid hv)
    simp [Head.isInvalid, Head.isPending, hset] at hv

end Content

/-- If each attempt has resolved a directive to a settled fragment or has failed, an announced document is
settled. -/
theorem Performed.settled {T : String → SlotMap → Outcome → Prop} {items items' : List Content}
    (hp : Performed T items items') (ha : ∀ src slots, ¬T src slots .aborted)
    (hr : ∀ src slots f, T src slots (.resolved f) → Content.Settled f)
    (hn : ∀ h ∈ Content.headsAll items, h.isInvalid = false) : Content.Settled items' := by
  induction hp with
  | nil => simp [Content.Settled]
  | text s _ ih => simpa [Content.Settled] using ih (by simpa using hn)
  | kept hd _ _ ihc ih =>
    have hrest := ih fun g hg => hn g (by simp [hg])
    have hcs := ihc fun g hg => hn g (by simp [hg])
    exact Content.settled_node
      (fun hi => Head.settled_of_directive?_eq_none hi (hn _ (by simp)) hd) hcs hrest
  | aborted hd ht _ _ _ _ => exact absurd ht (ha _ _)
  | failed hd _ _ _ ihc ih =>
    have hrest := ih fun g hg => hn g (by simp [hg])
    exact Content.settled_node (fun _ => rfl) (ihc fun g hg => hn g (by simp [hg])) hrest
  | resolved hd ht _ _ _ ih =>
    have hrest := ih fun g hg => hn g (by simp [hg])
    exact Content.settled_node (by simp) (hr _ _ _ ht) hrest

namespace Expander

variable {x : Expander} {w : FileTree}

/-- An expansion that ends without a fault leaves no include pending. -/
theorem settled_expand (stack : List Path) (run : Run) (items : List Content)
    (ends : (x.expand w stack run items).2.isOver = false) :
    Content.Settled (x.expand w stack run items).1 := by
  have hp : Performed (fun _ _ o => o ≠ .aborted ∧ ∀ f, o = .resolved f → Content.Settled f)
      (Content.announced items) (x.expand w stack run items).1 := by
    refine performed_expand (fun run => run.isOver = false) Run.Extends.goes (fun ha hg => ?_) ends
    cases ha with
    | ended ho | broken _ _ _ _ _ _ ho => rw [ho] at hg; cases hg
    | unresolved _ | unusable _ _ _ | rejected _ _ _ => cases hg
    | circular _ _ | deep _ _ _ | unreadable _ _ => exact ⟨by simp, fun f hf => by cases hf⟩
    | entered hadm hread hp hfile hnew hr ho =>
      refine ⟨by simp, fun f hf => ?_⟩
      obtain rfl := Outcome.resolved.inj hf
      rw [hr] at ho ⊢
      exact settled_expand _ _ _ ho
  exact hp.settled (fun _ _ ht => ht.1 rfl) (fun _ _ f ht => ht.2 f rfl) (Content.announced_spec items)
termination_by w.unvisited stack
decreasing_by exact FileTree.unvisited_lt hfile hnew

/-- **Expanding twice is expanding once.**  Where an expansion ends without a fault, every include of what
it leaves is settled.  So a walk over that, whatever an attempt would do there, makes none, and any
further expansion, with any files, depth, stack and run, leaves the document and the run as they are. -/
theorem expand_idempotent (x : Expander) (w : FileTree) (stack : List Path) (run : Run)
    (items : List Content) (ends : (x.expand w stack run items).2.isOver = false) :
    (∀ h ∈ Content.headsAll (x.expand w stack run items).1, h.isInclude = true → h.settled = true) ∧
      (∀ (attempt : Attempt) (run' : Run), attempt.perform run' (x.expand w stack run items).1 =
        ((x.expand w stack run items).1, run')) ∧
      ∀ (x' : Expander) (w' : FileTree) (stack' : List Path) (run' : Run),
        x'.expand w' stack' run' (x.expand w stack run items).1 =
          ((x.expand w stack run items).1, run') := by
  have hs := settled_expand stack run items ends
  refine ⟨hs, fun attempt run' => attempt.perform_eq_self run' hs.directive?_eq_none, ?_⟩
  intro x' w' stack' run'
  rw [expand_eq, run'.announce_eq_self hs.isInvalid_eq_false,
    Content.announced_eq_self hs.isInvalid_eq_false]
  exact Attempt.perform_eq_self _ run' hs.directive?_eq_none

/-- What the example has become stays. -/
theorem sample_stays : (sampleExpander.expand sampleFiles [] {} sampleDocument).2.isOver = false ∧
    ∀ (x : Expander) (w : FileTree) (stack : List Path) (run : Run),
      x.expand w stack run sampleExpanded = (sampleExpanded, run) := by
  obtain ⟨htree, hends⟩ := expand_sample
  have h := (expand_idempotent sampleExpander sampleFiles [] {} sampleDocument hends).2.2
  rw [htree] at h
  exact ⟨hends, h⟩

end Expander
end PageComposer
