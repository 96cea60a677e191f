/-
# Every directive is attempted once

A walk meets the directives of a document in an order of its own: those in the slots of an include, that
include, those in its other children. Each of them is attempted, and none twice: what holds of the
references attempted on the way holds of the references of the document (`Attempt.Tallies.perform`).

| part of an include | references |
| --- | --- |
| its slots | those in the last binding of each name (`SlotMap.directives`) |
| its other children | all others (`SlotMap.otherDirectives`) |

The slots that a directive is attempted with have been performed by then, so no include in them is pending
(`Attempt.Tallies.slots`).
-/

import Mathlib.Algebra.BigOperators.Group.Multiset.Basic
import PageComposer.Proofs.Expansion.Idempotence

namespace PageComposer

namespace Content

@[simp] theorem directives_nil : directives [] = [] := rfl

@[simp] theorem directives_text (s : String) (rest : List Content) :
    directives (.text s :: rest) = directives rest := by
  simp [directives]

theorem directives_node (h : Head) (cs rest : List Content) :
    directives (.node h cs :: rest) = h.directive?.toList ++ (directives cs ++ directives rest) := by
  unfold directives
  rw [headsAll_node, List.filterMap_cons, List.filterMap_append]
  cases h.directive? <;> rfl

/-- The directives of a list are those of its first item and those of the rest. -/
theorem directives_cons (item : Content) (rest : List Content) :
    directives (item :: rest) = directives [item] ++ directives rest := by
  unfold directives
  rw [headsAll_cons, List.filterMap_append]

end Content

/-! ### The directives of an include -/

namespace SlotMap

/-- The references of the directives in slots. -/
def directives (slots : SlotMap) : Multiset String :=
  (slots.map fun s => (Content.directives s.2 : Multiset String)).sum

/-- The references of the directives in children of an include that are no last binding of a name. -/
def otherDirectives : List Content → Multiset String
  | [] => 0
  | item :: rest =>
    (if (binding? item).any fun b => !rest.any (binds b.1) then 0
      else (Content.directives [item] : Multiset String)) + otherDirectives rest

theorem otherDirectives_of_loser {item : Content} {rest : List Content} (hc : counts item rest = false) :
    otherDirectives (item :: rest) = Content.directives [item] + otherDirectives rest := by
  rw [otherDirectives, ← counts, hc, if_neg Bool.false_ne_true]

theorem otherDirectives_of_winner {item : Content} {rest : List Content} (hc : counts item rest = true) :
    otherDirectives (item :: rest) = otherDirectives rest := by
  rw [otherDirectives, ← counts, hc, if_pos rfl, zero_add]

@[simp] theorem directives_nil : directives [] = 0 := rfl

@[simp] theorem directives_cons (s : String × List Content) (rest : SlotMap) :
    directives (s :: rest) = Content.directives s.2 + directives rest := rfl

theorem directives_perm {slots slots' : SlotMap} (hp : slots.Perm slots') :
    slots.directives = slots'.directives := (hp.map _).sum_eq

theorem mem_iff_get? {slots : SlotMap} (hd : slots.names.Nodup) (s : String × List Content) :
    s ∈ slots ↔ slots.get? s.1 = some s.2 := by
  refine ⟨fun hs => ?_, mem_of_get?⟩
  induction slots with
  | nil => cases hs
  | cons t rest ih =>
    rw [names_cons, List.nodup_cons] at hd
    rw [get?_cons]
    rcases List.mem_cons.1 hs with rfl | hs
    · simp
    · have hne : t.1 ≠ s.1 := fun he => hd.1 (he ▸ List.mem_map_of_mem hs)
      rw [if_neg (by simpa using hne)]
      exact ih hd.2 hs

/-- Slots that hold the same under each name are the same but for their order. -/
theorem perm_of_get?_eq {slots slots' : SlotMap} (hd : slots.names.Nodup) (hd' : slots'.names.Nodup)
    (hg : ∀ name, slots.get? name = slots'.get? name) : slots.Perm slots' := by
  refine (List.perm_ext_iff_of_nodup (List.Nodup.of_map _ hd) (List.Nodup.of_map _ hd')).2 fun s => ?_
  rw [mem_iff_get? hd, mem_iff_get? hd', hg]

theorem ofChildren_perm_of_loser {item : Content} {rest : List Content} (hc : counts item rest = false) :
    (ofChildren (item :: rest)).Perm (ofChildren rest) :=
  perm_of_get?_eq (nodup_names_ofChildren _) (nodup_names_ofChildren _) (get?_ofChildren_of_loser hc)

theorem ofChildren_perm_of_winner {h : Head} {cs rest : List Content} {name : String}
    (hb : binding? (.node h cs) = some (name, cs)) (hlast : rest.any (binds name) = false) :
    (ofChildren (.node h cs :: rest)).Perm ((name, cs) :: ofChildren rest) := by
  have hnew : name ∉ (ofChildren rest).names := by
    rw [← isSome_get?_iff, isSome_get?_ofChildren, hlast]
    exact Bool.false_ne_true
  refine perm_of_get?_eq (nodup_names_ofChildren _) ?_ fun name' => ?_
  · rw [names_cons, List.nodup_cons]
    exact ⟨hnew, nodup_names_ofChildren rest⟩
  · rw [get?_ofChildren_of_winner hb hlast, get?_cons]

/-- **The directives of the children of an include are those of its slots and the others.** -/
theorem directives_ofChildren (children : List Content) :
    (Content.directives children : Multiset String) =
      (ofChildren children).directives + otherDirectives children := by
  induction children using children_induction with
  | nil => rfl
  | loser item rest hc ih =>
    rw [Content.directives_cons, ← Multiset.coe_add, ih, directives_perm (ofChildren_perm_of_loser hc),
      otherDirectives_of_loser hc, add_left_comm]
  | winner h cs rest name hb hlast ih =>
    rw [Content.directives_node, directive?_of_binding? hb, Option.toList_none, List.nil_append,
      ← Multiset.coe_add, ih, directives_perm (ofChildren_perm_of_winner hb hlast), directives_cons,
      otherDirectives_of_winner (counts_of_winner hb hlast), add_assoc]

/-- The directives of a directive: those of its slots, itself, and those of its other children. -/
theorem directives_directive {h : Head} {cs : List Content} {src : String} (hd : h.directive? = some src) :
    (Content.directives [.node h cs] : Multiset String) =
      (ofChildren cs).directives + {src} + otherDirectives cs := by
  rw [Content.directives_node, hd, Option.toList_some, Content.directives_nil, List.append_nil,
    ← Multiset.coe_add, directives_ofChildren, Multiset.coe_singleton, ← add_assoc]
  exact congrArg (· + _) (add_comm _ _)

/-- What holds of the heads of a node holds of those of its slots. -/
theorem forall_heads_ofChildren {p : Head → Prop} {h : Head} {cs : List Content}
    (hn : ∀ g ∈ Content.headsAll [.node h cs], p g) :
    ∀ s ∈ ofChildren cs, ∀ g ∈ Content.headsAll s.2, p g := by
  intro s hs g hg
  obtain ⟨_, _, hmem⟩ := Content.mem_of_binding? (mem_of_mem_ofChildren hs)
  exact hn g (by simp [Content.mem_headsAll_of_mem hmem hg])

end SlotMap

/-! ### Walks -/

/-- A relation of runs, with the references that are attempted between them, that holds over a walk. Once
the expansion has ended, further references may count as attempted; before that, no include in the slots of
a directive is pending. -/
structure Attempt.Tallies (attempt : Attempt) (R : Multiset String → Run → Run → Prop) : Prop where
  nothing : ∀ run, R 0 run run
  add : ∀ {s t a b c}, R s a b → R t b c → R (s + t) a c
  ended : ∀ {s t a b}, s ≤ t → R s a b → b.isOver = true → R t a b
  attempt : ∀ src slots run, (run.isOver = false → ∀ s ∈ slots, Content.Settled s.2) →
    R {src} run (attempt src slots run).2
  skip : ∀ run sources, R 0 run (Run.skip run sources)
  release : ∀ run items, R 0 run (Run.release run items)

/-- What attempts have to do for their directives to count: an expansion that has ended stays so, an aborted
attempt ends it, and a fragment holds no pending include. -/
structure Attempt.Settling (attempt : Attempt) : Prop where
  goes : attempt.Respects fun run run' => run'.isOver = false → run.isOver = false
  aborted : ∀ src slots run, (attempt src slots run).1 = .aborted → (attempt src slots run).2.isOver = true
  resolved : ∀ src slots run f, (attempt src slots run).1 = .resolved f →
    (attempt src slots run).2.isOver = false → Content.Settled f

namespace Attempt

variable {attempt : Attempt} {R : Multiset String → Run → Run → Prop}

/-- What has been performed without an end is settled. -/
theorem Settling.perform (hA : attempt.Settling) (run : Run) {items : List Content}
    (hn : ∀ h ∈ Content.headsAll items, h.isInvalid = false)
    (hgoes : (Attempt.perform attempt run items).2.isOver = false) :
    Content.Settled (Attempt.perform attempt run items).1 := by
  have hp := performed_perform (T := fun _ _ o => o ≠ .aborted ∧ ∀ f, o = .resolved f → Content.Settled f)
    hA.goes (fun src slots run hg => ⟨fun ha => ?_, fun f hf => hA.resolved src slots run f hf hg⟩)
    run items hgoes
  · exact hp.settled (fun _ _ ht => ht.1 rfl) (fun _ _ f ht => ht.2 f rfl) hn
  · rw [hA.aborted src slots run ha] at hg
    cases hg

/-- So is what slots hold after that. -/
theorem Settling.performSlots (hA : attempt.Settling) (run : Run) {slots : SlotMap}
    (hn : ∀ s ∈ slots, ∀ h ∈ Content.headsAll s.2, h.isInvalid = false)
    (hgoes : (Attempt.performSlots attempt run slots).2.isOver = false) :
    ∀ s ∈ (Attempt.performSlots attempt run slots).1, Content.Settled s.2 := by
  induction slots generalizing run with
  | nil => simp [Attempt.performSlots]
  | cons s rest ih =>
    obtain ⟨name, content⟩ := s
    rw [List.forall_mem_cons] at hn
    rw [Attempt.performSlots] at hgoes ⊢
    have hfirst := hA.goes.all.2.2.1 _ _ hgoes
    exact List.forall_mem_cons.2 ⟨hA.perform run hn.1 hfirst, ih _ hn.2 hgoes⟩

/-- A directive is attempted with its slots performed. -/
theorem Tallies.directive (hR : attempt.Tallies R) (hA : attempt.Settling) {run mid after : Run} {h : Head}
    {cs : List Content} {src : String} {slots : SlotMap} {o : Outcome}
    (hn : ∀ g ∈ Content.headsAll [.node h cs], g.isInvalid = false)
    (hs : Attempt.performSlots attempt run (SlotMap.ofChildren cs) = (slots, mid))
    (ha : attempt src slots mid = (o, after))
    (ih : (∀ s ∈ SlotMap.ofChildren cs, ∀ g ∈ Content.headsAll s.2, g.isInvalid = false) →
      R (SlotMap.ofChildren cs).directives run mid) :
    R ((SlotMap.ofChildren cs).directives + {src}) run after := by
  have hslots := SlotMap.forall_heads_ofChildren hn
  have hsettled := hA.performSlots run hslots
  rw [hs] at hsettled
  have hstep := hR.add (ih hslots) (hR.attempt src slots mid hsettled)
  rwa [ha] at hstep

/-- **A walk attempts every directive once.**  What holds of the references attempted holds of those of the
document. -/
theorem Tallies.perform (hA : attempt.Settling) (hR : attempt.Tallies R) (run : Run)
    {items : List Content} (hn : ∀ h ∈ Content.headsAll items, h.isInvalid = false) :
    R (Content.directives items) run (Attempt.perform attempt run items).2 := by
  refine (walk_induction attempt
    (fun run item r => (∀ h ∈ Content.headsAll [item], h.isInvalid = false) →
      R (Content.directives [item]) run r.2)
    (fun _ run children r => (∀ h ∈ Content.headsAll children, h.isInvalid = false) →
      R (SlotMap.otherDirectives children) run r.2)
    (fun run slots r => (∀ s ∈ slots, ∀ h ∈ Content.headsAll s.2, h.isInvalid = false) →
      R slots.directives run r.2)
    (fun run items r => (∀ h ∈ Content.headsAll items, h.isInvalid = false) →
      R (Content.directives items) run r.2)
    ?text ?kept ?aborted ?failed ?resolved ?childless ?loser ?winner ?unbound ?slot ?nil ?cons).2.2.2
    run items hn
  case text => exact fun run _ _ => hR.nothing run
  case kept =>
    intro run h cs hd ih hn
    simpa [Content.directives_node, hd] using ih (Content.forall_headsAll_below hn)
  case aborted =>
    intro run h cs src slots mid after hd hs ha ihs hn
    have hover := hA.aborted src slots mid
    rw [ha] at hover
    rw [SlotMap.directives_directive hd]
    exact hR.ended (Multiset.le_add_right _ _) (hR.directive hA hn hs ha ihs) (hover rfl)
  case failed =>
    intro run h cs src slots mid after hd hs ha ihs iho hn
    rw [SlotMap.directives_directive hd]
    exact hR.add (hR.directive hA hn hs ha ihs) (iho (Content.forall_headsAll_below hn))
  case resolved =>
    intro run h cs src slots mid f after hd hs ha ihs iho hn
    rw [SlotMap.directives_directive hd, ← add_zero (_ + _)]
    exact hR.add (hR.add (hR.directive hA hn hs ha ihs) (iho (Content.forall_headsAll_below hn)))
      (hR.release _ _)
  case childless => exact fun _ run _ => hR.nothing run
  case loser =>
    intro slots run item rest hc ihi ih hn
    rw [SlotMap.otherDirectives_of_loser hc]
    exact hR.add (ihi (Content.forall_headsAll_cons.1 hn).1) (ih (Content.forall_headsAll_cons.1 hn).2)
  case winner =>
    intro slots run h cs rest name hb hlast ih hn
    rw [SlotMap.otherDirectives_of_winner (SlotMap.counts_of_winner hb hlast),
      ← zero_add (SlotMap.otherDirectives _)]
    exact hR.add (hR.skip run _) (ih (Content.forall_headsAll_cons.1 hn).2)
  case unbound => exact fun run _ => hR.nothing run
  case slot =>
    intro run name content rest ihc ih hn
    rw [List.forall_mem_cons] at hn
    rw [SlotMap.directives_cons]
    exact hR.add (ihc hn.1) (ih hn.2)
  case nil => exact fun run _ => hR.nothing run
  case cons =>
    intro run item rest ihi ih hn
    rw [Content.directives_cons, ← Multiset.coe_add]
    exact hR.add (ihi (Content.forall_headsAll_cons.1 hn).1) (ih (Content.forall_headsAll_cons.1 hn).2)

end Attempt
end PageComposer
