/-
# Where an expansion has stopped

A fault ends an expansion in the middle of a document.  What it leaves then is told by one way down from the
document to the directive that the fault struck (`Halted`, `Attempt.Tells.halted`):

| on the way | stands there |
| --- | --- |
| items before it | performed |
| items behind it | as they were |
| node that is no directive | itself, around the rest of the way |
| directive that has stopped in a slot, or in its own attempt | itself, pending, with its slots put back |
| directive that has failed before | itself, settled, around its other children |
| directive that has been resolved before | its fragment; the way goes on in the content that was released |

The slots that are put back have the names that the directive binds.  Those before the place where it stopped
have been performed, those behind are as they were.
-/

import PageComposer.Proofs.Expansion.Gains

namespace PageComposer

/-! ### Slots put back -/

namespace SlotMap

theorem any_binds_putBack (slots : SlotMap) (children : List Content) (name : String) :
    (putBack slots children).any (binds name) = children.any (binds name) := by
  induction children using children_induction with
  | nil => rfl
  | loser item rest hc ih => rw [putBack_of_loser slots hc, List.any_cons, List.any_cons, ih]
  | winner h cs rest n hb hlast ih =>
    rw [putBack_of_winner slots hb hlast, List.any_cons, List.any_cons, ih]
    simp only [binds, hb, binding?_with hb]

theorem counts_putBack (slots : SlotMap) (item : Content) (rest : List Content) :
    counts item (putBack slots rest) = counts item rest := by
  unfold counts
  cases binding? item with
  | none => rfl
  | some b => simp only [Option.any_some, any_binds_putBack]

/-- Slots put back twice are those put back last. -/
theorem putBack_putBack {slots : SlotMap} (slots' : SlotMap) {children : List Content}
    (hs : slots.Covers children) : slots.putBack (slots'.putBack children) = slots.putBack children := by
  induction children using children_induction with
  | nil => rfl
  | loser item rest hc ih =>
    rw [putBack_of_loser slots' hc, putBack_of_loser slots hc,
      putBack_of_loser slots ((counts_putBack slots' item rest).trans hc), ih hs.tail]
  | winner h cs rest name hb hlast ih =>
    obtain ⟨c, hget⟩ := Option.isSome_iff_exists.1 (hs name (by simp [binds, hb]))
    rw [putBack_of_winner slots' hb hlast, putBack_of_winner slots hb hlast,
      putBack_of_winner slots (binding?_with hb _) ((any_binds_putBack slots' rest name).trans hlast),
      ih hs.tail, hget]
    rfl

/-- Putting back brings nothing new. -/
theorem mem_headsAll_putBack {slots : SlotMap} {children : List Content} {g : Head}
    (hg : g ∈ Content.headsAll (slots.putBack children)) :
    g ∈ Content.headsAll children ∨ ∃ s ∈ slots, g ∈ Content.headsAll s.2 := by
  induction children using children_induction with
  | nil => cases hg
  | loser item rest hc ih =>
    rw [putBack_of_loser slots hc, Content.headsAll_cons, List.mem_append] at hg
    rw [Content.headsAll_cons, List.mem_append, or_assoc]
    exact hg.imp id ih
  | winner h cs rest name hb hlast ih =>
    rw [putBack_of_winner slots hb hlast, Content.headsAll_node, List.mem_cons, List.mem_append] at hg
    rw [Content.headsAll_node, List.mem_cons, List.mem_append]
    rcases hg with rfl | hg | hg
    · exact .inl (.inl rfl)
    · cases hget : slots.get? name with
      | none =>
        rw [hget] at hg
        exact .inl (.inr (.inl hg))
      | some c =>
        rw [hget] at hg
        exact .inr ⟨_, mem_of_get? hget, hg⟩
    · exact (ih hg).imp (fun h => .inr (.inr h)) id

/-- Where each child that counts binds what is put back, nothing changes. -/
theorem putBack_eq_self {slots : SlotMap} {children : List Content}
    (hs : ∀ item ∈ winners children, ∀ b, binding? item = some b → slots.get? b.1 = some b.2) :
    slots.putBack children = children := by
  induction children using children_induction with
  | nil => rfl
  | loser item rest hc ih =>
    rw [winners_of_loser hc] at hs
    rw [putBack_of_loser slots hc, ih hs]
  | winner h cs rest name hb hlast ih =>
    rw [winners_of_winner (counts_of_winner hb hlast), List.forall_mem_cons] at hs
    rw [putBack_of_winner slots hb hlast, ih hs.2, hs.1 _ hb]
    rfl

theorem putBack_ofChildren (children : List Content) : (ofChildren children).putBack children = children :=
  putBack_eq_self fun _ hw b hb => by
    obtain ⟨b', hb', hget⟩ := get?_ofChildren_of_mem_winners hw
    rw [Option.some.inj (hb.symm.trans hb')]
    exact hget

end SlotMap

namespace Attempt

variable {A : Attempt}

theorem performSlots_append (run : Run) (slots more : SlotMap) :
    performSlots A run (slots ++ more) =
      ((performSlots A run slots).1 ++ (performSlots A (performSlots A run slots).2 more).1,
        (performSlots A (performSlots A run slots).2 more).2) := by
  induction slots generalizing run with
  | nil => rw [performSlots, List.nil_append, List.nil_append]
  | cons s rest ih => rw [List.cons_append, performSlots, performSlots, ih, List.cons_append]

/-! ### After the end -/

/-- Attempts that do nothing in a run that has ended. -/
def Stops (A : Attempt) : Prop := ∀ src slots run, run.isOver = true → A src slots run = (.aborted, run)

/-- **A walk does nothing in a run that has ended**, apart from putting slots back. -/
theorem Stops.all (hA : A.Stops) :
    (∀ run item, run.isOver = true → performItem A run item = (item, run)) ∧
      (∀ slots run children, run.isOver = true →
        performOthers A slots run children = (slots.putBack children, run)) ∧
      (∀ run slots, run.isOver = true → performSlots A run slots = (slots, run)) ∧
      ∀ run items, run.isOver = true → perform A run items = (items, run) := by
  refine walk_induction A (fun run item r => run.isOver = true → r = (item, run))
    (fun slots run children r => run.isOver = true → r = (slots.putBack children, run))
    (fun run slots r => run.isOver = true → r = (slots, run))
    (fun run items r => run.isOver = true → r = (items, run))
    ?text ?kept ?aborted ?failed ?resolved ?childless ?loser ?winner ?unbound ?slot ?nil ?cons
  case text => exact fun _ _ _ => rfl
  case kept =>
    intro run h cs _ ih ho
    rw [ih ho]
  case aborted =>
    intro run h cs src slots mid after _ _ ha ihs ho
    obtain ⟨rfl, rfl⟩ := Prod.mk.inj (ihs ho)
    rw [hA _ _ _ ho] at ha
    rw [SlotMap.putBack_ofChildren, (Prod.mk.inj ha).2]
  case failed =>
    intro run h cs src slots mid after _ _ ha ihs _ ho
    obtain ⟨rfl, rfl⟩ := Prod.mk.inj (ihs ho)
    rw [hA _ _ _ ho] at ha
    cases ha
  case resolved =>
    intro run h cs src slots mid f after _ _ ha ihs _ ho
    obtain ⟨rfl, rfl⟩ := Prod.mk.inj (ihs ho)
    rw [hA _ _ _ ho] at ha
    cases ha
  case childless => exact fun _ _ _ => rfl
  case loser =>
    intro slots run item rest hc ihi ih ho
    rw [ihi ho] at ih ⊢
    rw [ih ho, SlotMap.putBack_of_loser slots hc]
  case winner =>
    intro slots run h cs rest name hb hlast ih ho
    have hskip : run.skip (Content.directives cs) = run := if_pos ho
    rw [hskip] at ih ⊢
    rw [ih ho, SlotMap.putBack_of_winner slots hb hlast]
  case unbound => exact fun _ _ => rfl
  case slot =>
    intro run name content rest ihc ih ho
    rw [ihc ho] at ih ⊢
    rw [ih ho]
  case nil => exact fun _ _ => rfl
  case cons =>
    intro run item rest ihi ih ho
    rw [ihi ho] at ih ⊢
    rw [ih ho]

end Attempt

/-- The slots of an include that had others put back are these. -/
theorem SlotMap.ofChildren_putBack {slots : SlotMap} {children : List Content}
    (hn : slots.names = (ofChildren children).names) : ofChildren (slots.putBack children) = slots := by
  -- putting back is what a walk that never attempts anything does
  let idle : Attempt := fun _ _ run => (.aborted, run)
  have hidle : idle.Stops := fun _ _ _ _ => rfl
  have hover : (({} : Run).abort .noByteOrder).isOver = true := rfl
  have h := ofChildren_performOthers idle (({} : Run).abort .noByteOrder) hn
  rwa [hidle.all.2.1 slots _ children hover] at h

/-! ### The way to the fault -/

/-- A slot and what has become of it. -/
def SlotPerformed (T : String → SlotMap → Outcome → Prop) (s s' : String × List Content) : Prop :=
  s'.1 = s.1 ∧ Performed T s.2 s'.2

theorem SlotPerformed.names {T : String → SlotMap → Outcome → Prop} {slots slots' : SlotMap}
    (h : List.Forall₂ (SlotPerformed T) slots slots') : slots'.names = slots.names := by
  induction h with
  | nil => rfl
  | cons hs _ ih => rw [SlotMap.names_cons, SlotMap.names_cons, ih, hs.1]

/-- A document in which an expansion has stopped, and what that has left; `T` allows the outcomes of the
attempts that were completed.  If the fault struck content that had been released, this is `out`. -/
inductive Halted (T : String → SlotMap → Outcome → Prop) :
    (out items items' : List Content) → Prop
  -- the way leads past an item that has been performed, or into a node with what is behind it untouched
  | later {out rest rest' : List Content} {item item' : Content} (hitem : Performed T [item] [item'])
      (hrest : Halted T out rest rest') : Halted T out (item :: rest) (item' :: rest')
  | inside {out cs cs' : List Content} {h : Head} (hd : h.directive? = none) (hcs : Halted T out cs cs')
      (rest : List Content) : Halted T out (.node h cs :: rest) (.node h cs' :: rest)
  -- a directive under way: its head and its children stay, with their slots as far as these were performed
  | slot {out cs c c' : List Content} {h : Head} {src name : String} {before before' after : SlotMap}
      (hd : h.directive? = some src) (hslots : SlotMap.ofChildren cs = before ++ (name, c) :: after)
      (hbefore : List.Forall₂ (SlotPerformed T) before before') (hc : Halted T out c c')
      (rest : List Content) :
      Halted T out (.node h cs :: rest)
        (.node h (SlotMap.putBack (before' ++ (name, c') :: after) cs) :: rest)
  | struck {cs : List Content} {h : Head} {src : String} {slots : SlotMap} (hd : h.directive? = some src)
      (hslots : List.Forall₂ (SlotPerformed T) (SlotMap.ofChildren cs) slots) (rest : List Content) :
      Halted T [] (.node h cs :: rest) (.node h (slots.putBack cs) :: rest)
  -- a directive that has been completed, its other children not yet
  | failed {out cs cs' : List Content} {h : Head} {src : String} {slots : SlotMap}
      (hd : h.directive? = some src)
      (hslots : List.Forall₂ (SlotPerformed T) (SlotMap.ofChildren cs) slots) (ht : T src slots .failed)
      (hcs : Halted T out (slots.putBack cs) cs') (rest : List Content) :
      Halted T out (.node h cs :: rest) (.node h.settle cs' :: rest)
  | resolved {out cs cs' f : List Content} {h : Head} {src : String} {slots : SlotMap}
      (hd : h.directive? = some src)
      (hslots : List.Forall₂ (SlotPerformed T) (SlotMap.ofChildren cs) slots)
      (ht : T src slots (.resolved f)) (hcs : Halted T out (slots.putBack cs) cs') (rest : List Content) :
      Halted T (out ++ cs') (.node h cs :: rest) (.node h.resolved f :: rest)

/-- Content in which nothing is left to perform has been performed. -/
theorem Performed.of_settled {T : String → SlotMap → Outcome → Prop} {items : List Content}
    (hs : Content.Settled items) : Performed T items items := by
  have hd := hs.directive?_eq_none
  clear hs
  induction items using Content.list_induction with
  | nil => exact .nil
  | text s rest ih => exact .text s (ih (by simpa using hd))
  | node h cs rest ihc ih =>
    exact .kept (hd h (by simp)) (ihc fun g hg => hd g (by simp [hg])) (ih fun g hg => hd g (by simp [hg]))

/-- A run after which `out` is what was released last. -/
def Run.Leaves (run : Run) (out : List Content) : Prop := ∃ earlier, run.released = earlier ++ out

theorem Run.Leaves.release {run : Run} {out : List Content} (h : run.Leaves out) (items : List Content) :
    (run.release items).Leaves (out ++ items) := by
  obtain ⟨earlier, h⟩ := h
  exact ⟨earlier, by rw [Run.release, h, List.append_assoc]⟩

namespace Attempt

variable {A : Attempt} {Good : Run → Prop} {T : String → SlotMap → Outcome → Prop}

/-- What a walk needs for it to be told where it stops: `T` allows the outcomes of attempts that leave a good
run which goes on. -/
structure Tells (A : Attempt) (Good : Run → Prop) (T : String → SlotMap → Outcome → Prop) : Prop where
  settling : A.Settling
  stops : A.Stops
  done : ∀ src slots run, (A src slots run).1 ≠ .aborted → (A src slots run).2.isOver = false
  good : A.Respects fun run run' => Good run' → Good run
  tells : ∀ src slots run, (A src slots run).2.isOver = false → Good (A src slots run).2 →
    T src slots (A src slots run).1

theorem Tells.performed (hA : A.Tells Good T) {run : Run} {items : List Content}
    (hgoes : (perform A run items).2.isOver = false) (hg : Good (perform A run items).2) :
    Performed T items (perform A run items).1 := by
  have hR : A.Respects fun run run' =>
      (run'.isOver = false ∧ Good run') → (run.isOver = false ∧ Good run) := {
    refl := fun _ => id
    trans := fun h₁ h₂ => h₁ ∘ h₂
    attempt := fun src slots run h => ⟨hA.settling.goes.attempt _ _ _ h.1, hA.good.attempt _ _ _ h.2⟩
    skip := fun run sources h => ⟨hA.settling.goes.skip _ _ h.1, hA.good.skip _ _ h.2⟩
    release := fun run items h => ⟨hA.settling.goes.release _ _ h.1, hA.good.release _ _ h.2⟩ }
  exact performed_perform hR (fun src slots run h => hA.tells src slots run h.1 h.2) run items ⟨hgoes, hg⟩

theorem Tells.performedItem (hA : A.Tells Good T) {run : Run} {item : Content}
    (hgoes : (performItem A run item).2.isOver = false) (hg : Good (performItem A run item).2) :
    Performed T [item] [(performItem A run item).1] := by
  have h := @Tells.performed A Good T hA run [item]
  rw [perform_singleton] at h
  exact h hgoes hg

theorem Tells.performedSlots (hA : A.Tells Good T) {run : Run} {slots : SlotMap}
    (hgoes : (performSlots A run slots).2.isOver = false) (hg : Good (performSlots A run slots).2) :
    List.Forall₂ (SlotPerformed T) slots (performSlots A run slots).1 := by
  induction slots generalizing run with
  | nil =>
    rw [performSlots]
    exact .nil
  | cons s rest ih =>
    rw [performSlots] at hgoes hg ⊢
    have hfirst := hA.performed (hA.settling.goes.all.2.2.1 _ _ hgoes) (hA.good.all.2.2.1 _ _ hg)
    exact .cons ⟨rfl, hfirst⟩ (ih hgoes hg)

/-- A walk over slots that stops does so in one of them. -/
def HaltedSlots (T : String → SlotMap → Outcome → Prop) (out : List Content) (slots slots' : SlotMap) :
    Prop :=
  ∃ before before' name c c' after, slots = before ++ (name, c) :: after ∧
    slots' = before' ++ (name, c') :: after ∧ List.Forall₂ (SlotPerformed T) before before' ∧ Halted T out c c'

/-- A walk over an item that stops leaves what is behind it. -/
def HaltedItem (T : String → SlotMap → Outcome → Prop) (out : List Content) (item item' : Content) : Prop :=
  ∀ rest, Halted T out (item :: rest) (item' :: rest)

/-- If a walk has stopped and its run is good, then `P` tells where. -/
def Halts {α : Type} (Good : Run → Prop) (P : List Content → α → Prop) (r : α × Run) : Prop :=
  r.2.isOver = true → Good r.2 → ∃ out, P out r.1 ∧ r.2.Leaves out

/-- A run that goes on has not stopped. -/
theorem halts_of_goes {α : Type} {P : List Content → α → Prop} {r : α × Run} (hgo : r.2.isOver = false) :
    Halts Good P r := fun hover => by
  rw [hgo] at hover
  cases hover

/-! ### One step of a walk that stops -/

section

variable {slots : SlotMap} {run mid after : Run} {h : Head} {cs rest : List Content} {src : String}

/-- What is known of the slots of a directive that a run which goes on has come through. -/
theorem Tells.slots_performed (hA : A.Tells Good T)
    (hs : performSlots A run (SlotMap.ofChildren cs) = (slots, mid)) (hgoes : mid.isOver = false)
    (hg : Good mid) : List.Forall₂ (SlotPerformed T) (SlotMap.ofChildren cs) slots := by
  have hperformed : (performSlots A run (SlotMap.ofChildren cs)).2.isOver = false →
      Good (performSlots A run (SlotMap.ofChildren cs)).2 →
      List.Forall₂ (SlotPerformed T) (SlotMap.ofChildren cs) (performSlots A run (SlotMap.ofChildren cs)).1 :=
    hA.performedSlots
  rw [hs] at hperformed
  exact hperformed hgoes hg

/-- What is known of a directive whose attempt was completed. -/
theorem Tells.attempted (hA : A.Tells Good T) {o : Outcome}
    (hn : ∀ g ∈ Content.headsAll [.node h cs], g.isInvalid = false)
    (hs : performSlots A run (SlotMap.ofChildren cs) = (slots, mid)) (ha : A src slots mid = (o, after))
    (ho : o ≠ .aborted) (hg : Good after) :
    List.Forall₂ (SlotPerformed T) (SlotMap.ofChildren cs) slots ∧ slots.Covers cs ∧
      (∀ s ∈ slots, Content.Settled s.2) ∧ after.isOver = false ∧ T src slots o := by
  have hafter := hA.done src slots mid
  have htells := hA.tells src slots mid
  have hbefore := hA.settling.goes.attempt src slots mid
  have hgood := hA.good.attempt src slots mid
  have hsettled := hA.settling.performSlots run (SlotMap.forall_heads_ofChildren hn)
  rw [ha] at hafter htells hbefore hgood
  rw [hs] at hsettled
  have hgoes := hbefore (hafter ho)
  have hperformed := hA.slots_performed hs hgoes (hgood hg)
  exact ⟨hperformed, SlotMap.covers_of_names (SlotPerformed.names hperformed), hsettled hgoes, hafter ho,
    htells (hafter ho) hg⟩

/-- A directive whose attempt was not completed has stopped in a slot, or is struck itself. -/
theorem Tells.halts_aborted (hA : A.Tells Good T) (hd : h.directive? = some src)
    (hs : performSlots A run (SlotMap.ofChildren cs) = (slots, mid))
    (ha : A src slots mid = (.aborted, after))
    (hslots : Halts Good (HaltedSlots T · (SlotMap.ofChildren cs)) (slots, mid)) :
    Halts Good (HaltedItem T · (.node h cs)) (.node h (slots.putBack cs), after) := by
  intro hover hg
  have hgood := hA.good.attempt src slots mid
  rw [ha] at hgood
  cases hmid : mid.isOver with
  | true =>
    rw [hA.stops _ _ _ hmid] at ha
    obtain rfl := (Prod.mk.inj ha).2
    obtain ⟨out, ⟨before, before', name, c, c', more, heq, rfl, hbefore, hc⟩, hleaves⟩ := hslots hmid hg
    exact ⟨out, fun rest => .slot hd heq hbefore hc rest, hleaves⟩
  | false =>
    have hperformed := hA.slots_performed hs hmid (hgood hg)
    exact ⟨[], fun rest => .struck hd hperformed rest, ⟨after.released, by rw [List.append_nil]⟩⟩

/-- A child that is no slot of the include stops, or is performed. -/
theorem Tells.halts_loser (hA : A.Tells Good T) {item : Content} (hc : SlotMap.counts item rest = false)
    (hitem : Halts Good (HaltedItem T · item) (performItem A run item))
    (hrest : (performItem A run item).2.isOver = false →
      Halts Good (Halted T · (slots.putBack rest)) (performOthers A slots (performItem A run item).2 rest)) :
    Halts Good (Halted T · (slots.putBack (item :: rest)))
      ((performItem A run item).1 :: (performOthers A slots (performItem A run item).2 rest).1,
        (performOthers A slots (performItem A run item).2 rest).2) := by
  intro hover hg
  rw [SlotMap.putBack_of_loser slots hc]
  have hgood := hA.good.all.2.1 slots (performItem A run item).2 rest hg
  cases hfirst : (performItem A run item).2.isOver with
  | true =>
    obtain ⟨out, hhalted, hleaves⟩ := hitem hfirst hgood
    rw [hA.stops.all.2.1 slots _ rest hfirst]
    exact ⟨out, hhalted _, hleaves⟩
  | false =>
    obtain ⟨out, hhalted, hleaves⟩ := hrest hfirst hover hg
    exact ⟨out, .later (hA.performedItem hfirst hgood) hhalted, hleaves⟩

/-- A slot of the include has been performed before. -/
theorem halts_winner {name : String} (hb : SlotMap.binding? (.node h cs) = some (name, cs))
    (hlast : rest.any (SlotMap.binds name) = false) (hcov : slots.Covers (.node h cs :: rest))
    (hsettled : ∀ s ∈ slots, Content.Settled s.2)
    (hrest : Halts Good (Halted T · (slots.putBack rest))
      (performOthers A slots (run.skip (Content.directives cs)) rest)) :
    Halts Good (Halted T · (slots.putBack (.node h cs :: rest)))
      (.node h ((slots.get? name).getD cs) :: (performOthers A slots (run.skip (Content.directives cs)) rest).1,
        (performOthers A slots (run.skip (Content.directives cs)) rest).2) := by
  intro hover hg
  rw [SlotMap.putBack_of_winner slots hb hlast]
  obtain ⟨content, hget⟩ := Option.isSome_iff_exists.1 (hcov name (by simp [SlotMap.binds, hb]))
  obtain ⟨out, hhalted, hleaves⟩ := hrest hover hg
  refine ⟨out, .later (.kept (SlotMap.directive?_of_binding? hb) ?_ .nil) hhalted, hleaves⟩
  rw [hget]
  exact .of_settled (hsettled _ (SlotMap.mem_of_get? hget))

/-- A slot stops, or is performed. -/
theorem Tells.halts_slot (hA : A.Tells Good T) {name : String} {content : List Content}
    (hc : Halts Good (Halted T · content) (perform A run content))
    (hrest : (perform A run content).2.isOver = false →
      Halts Good (HaltedSlots T · slots) (performSlots A (perform A run content).2 slots)) :
    Halts Good (HaltedSlots T · ((name, content) :: slots))
      ((name, (perform A run content).1) :: (performSlots A (perform A run content).2 slots).1,
        (performSlots A (perform A run content).2 slots).2) := by
  intro hover hg
  have hgood := hA.good.all.2.2.1 (perform A run content).2 slots hg
  cases hfirst : (perform A run content).2.isOver with
  | true =>
    obtain ⟨out, hhalted, hleaves⟩ := hc hfirst hgood
    rw [hA.stops.all.2.2.1 _ slots hfirst]
    exact ⟨out, ⟨[], [], name, content, _, slots, rfl, rfl, .nil, hhalted⟩, hleaves⟩
  | false =>
    obtain ⟨out, ⟨before, before', n, c, c', after, heq, heq', hbefore, hc⟩, hleaves⟩ := hrest hfirst hover hg
    refine ⟨out, ⟨(name, content) :: before, (name, (perform A run content).1) :: before', n, c, c', after, ?_, ?_,
      .cons ⟨rfl, hA.performed hfirst hgood⟩ hbefore, hc⟩, hleaves⟩
    · rw [heq, List.cons_append]
    · rw [heq', List.cons_append]

/-- An item stops, or is performed. -/
theorem Tells.halts_cons (hA : A.Tells Good T) {item : Content}
    (hitem : Halts Good (HaltedItem T · item) (performItem A run item))
    (hrest : (performItem A run item).2.isOver = false →
      Halts Good (Halted T · rest) (perform A (performItem A run item).2 rest)) :
    Halts Good (Halted T · (item :: rest))
      ((performItem A run item).1 :: (perform A (performItem A run item).2 rest).1,
        (perform A (performItem A run item).2 rest).2) := by
  intro hover hg
  have hgood := hA.good.all.2.2.2 (performItem A run item).2 rest hg
  cases hfirst : (performItem A run item).2.isOver with
  | true =>
    obtain ⟨out, hhalted, hleaves⟩ := hitem hfirst hgood
    rw [hA.stops.all.2.2.2 _ rest hfirst]
    exact ⟨out, hhalted rest, hleaves⟩
  | false =>
    obtain ⟨out, hhalted, hleaves⟩ := hrest hfirst hover hg
    exact ⟨out, .later (hA.performedItem hfirst hgood) hhalted, hleaves⟩

end

/-- **Where a walk stops.** -/
theorem Tells.halted (hA : A.Tells Good T) {run : Run} {items : List Content} (hgo : run.isOver = false)
    (hn : ∀ h ∈ Content.headsAll items, h.isInvalid = false)
    (hover : (perform A run items).2.isOver = true) (hg : Good (perform A run items).2) :
    ∃ out, Halted T out items (perform A run items).1 ∧ (perform A run items).2.Leaves out := by
  refine (walk_induction A
    (fun run item r => run.isOver = false → (∀ h ∈ Content.headsAll [item], h.isInvalid = false) →
      Halts Good (HaltedItem T · item) r)
    (fun slots run children r => run.isOver = false → slots.Covers children →
      (∀ s ∈ slots, Content.Settled s.2) → (∀ h ∈ Content.headsAll children, h.isInvalid = false) →
      Halts Good (Halted T · (slots.putBack children)) r)
    (fun run slots r => run.isOver = false → (∀ s ∈ slots, ∀ h ∈ Content.headsAll s.2, h.isInvalid = false) →
      Halts Good (HaltedSlots T · slots) r)
    (fun run items r => run.isOver = false → (∀ h ∈ Content.headsAll items, h.isInvalid = false) →
      Halts Good (Halted T · items) r)
    ?text ?kept ?aborted ?failed ?resolved ?childless ?loser ?winner ?unbound ?slot ?nil ?cons).2.2.2
    run items hgo hn hover hg
  case text => exact fun _ _ hgo _ => halts_of_goes hgo
  case kept =>
    intro run h cs hd ih hgo hn hover hg
    obtain ⟨out, hhalted, hleaves⟩ := ih hgo (Content.forall_headsAll_below hn) hover hg
    exact ⟨out, .inside hd hhalted, hleaves⟩
  case aborted =>
    intro run h cs src slots mid after hd hs ha ihs hgo hn
    exact hA.halts_aborted hd hs ha (ihs hgo (SlotMap.forall_heads_ofChildren hn))
  case failed =>
    intro run h cs src slots mid after hd hs ha ihs iho hgo hn hover hg
    obtain ⟨hperformed, hcov, hsettled, hafter, ht⟩ :=
      hA.attempted hn hs ha (by rintro ⟨⟩) (hA.good.all.2.1 _ _ _ hg)
    obtain ⟨out, hhalted, hleaves⟩ := iho hafter hcov hsettled (Content.forall_headsAll_below hn) hover hg
    exact ⟨out, fun rest => .failed hd hperformed ht hhalted rest, hleaves⟩
  case resolved =>
    intro run h cs src slots mid f after hd hs ha ihs iho hgo hn hover hg
    have hg := hA.good.release _ _ hg
    obtain ⟨hperformed, hcov, hsettled, hafter, ht⟩ :=
      hA.attempted hn hs ha (by rintro ⟨⟩) (hA.good.all.2.1 _ _ _ hg)
    obtain ⟨out, hhalted, hleaves⟩ := iho hafter hcov hsettled (Content.forall_headsAll_below hn) hover hg
    exact ⟨_, fun rest => .resolved hd hperformed ht hhalted rest, hleaves.release _⟩
  case childless => exact fun _ _ hgo _ _ _ => halts_of_goes hgo
  case loser =>
    intro slots run item rest hc ihi ih hgo hcov hsettled hn
    exact hA.halts_loser hc (ihi hgo (Content.forall_headsAll_cons.1 hn).1) fun hgo' =>
      ih hgo' hcov.tail hsettled (Content.forall_headsAll_cons.1 hn).2
  case winner =>
    intro slots run h cs rest name hb hlast ih hgo hcov hsettled hn
    exact halts_winner hb hlast hcov hsettled (ih ((Run.isOver_of_like (run.like_skip _)).trans hgo) hcov.tail
      hsettled (Content.forall_headsAll_cons.1 hn).2)
  case unbound => exact fun _ hgo _ => halts_of_goes hgo
  case slot =>
    intro run name content rest ihc ih hgo hn
    rw [List.forall_mem_cons] at hn
    exact hA.halts_slot (ihc hgo hn.1) fun hgo' => ih hgo' hn.2
  case nil => exact fun _ hgo _ => halts_of_goes hgo
  case cons =>
    intro run item rest ihi ih hgo hn
    exact hA.halts_cons (ihi hgo (Content.forall_headsAll_cons.1 hn).1) fun hgo' =>
      ih hgo' (Content.forall_headsAll_cons.1 hn).2

end Attempt
end PageComposer
