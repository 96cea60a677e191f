/-
# The steps of a session

Whatever a session does to a document is a deed (`Session.Step.exists_deed`): the document becomes what the deed
makes of it, and slots take over the nodes that they share with it. So a step leaves the other documents, and the
slots that share no node with its own (`Session.Step.frame`), and so do steps one after another
(`Session.Steps.frame`).
-/

import PageComposer.Proofs.Session.Deeds

namespace PageComposer

/-! ### Names -/

section

variable {α β : Type} {name other : String} {value : α}

@[simp] theorem lookup_putNamed (name : String) (value : α) (pairs : List (String × α)) :
    (putNamed name value pairs).lookup name = some value := by
  induction pairs with
  | nil => simp [putNamed]
  | cons p rest ih =>
    unfold putNamed
    split
    · simp
    · rename_i hp
      have hne : (name == p.1) = false := by
        rw [beq_eq_false_iff_ne]
        rintro rfl
        exact hp (beq_self_eq_true _)
      rw [List.lookup_cons, hne]
      exact ih

theorem lookup_putNamed_of_ne (hne : other ≠ name) (pairs : List (String × α)) :
    (putNamed name value pairs).lookup other = pairs.lookup other := by
  have hother : (other == name) = false := by rwa [beq_eq_false_iff_ne]
  induction pairs with
  | nil => simp [putNamed, List.lookup_cons, hother]
  | cons p rest ih =>
    unfold putNamed
    split
    · rename_i hp
      rw [List.lookup_cons, List.lookup_cons, hother, show (other == p.1) = false by rw [eq_of_beq hp, hother]]
    · rw [List.lookup_cons, List.lookup_cons, ih]

theorem lookup_map_right (f : α → β) (name : String) (pairs : List (String × α)) :
    (pairs.map fun p => (p.1, f p.2)).lookup name = (pairs.lookup name).map f := by
  induction pairs with
  | nil => rfl
  | cons p rest ih =>
    rw [List.map_cons, List.lookup_cons, List.lookup_cons, ih]
    cases name == p.1 <;> rfl

end

/-- No node is found under a mark that has no place. -/
theorem Content.lookup_marked {m : Nat} {items : List Content} (h : Content.places m items = 0) :
    (Content.marked items).lookup m = none := by
  rw [List.lookup_eq_none_iff]
  intro p hp
  obtain ⟨item, hn, hitem⟩ := List.mem_filterMap.1 hp
  obtain ⟨m', hm', rfl⟩ := Option.map_eq_some_iff.1 hitem
  rw [bne_iff_ne]
  rintro rfl
  rw [Content.places_eq_countP, List.countP_eq_zero] at h
  exact h item hn (beq_iff_eq.2 hm')

namespace Session

/-! ### One step -/

/-- What a session does to a document. -/
inductive Step (name : String) : Session → Session → Prop
  | expand (s : Session) (x : Expander) (w : FileTree) (place : Place) (report : Option String)
      (stack : List Path) : Step name s (s.expandIn x w name place report stack).1
  | collect (s : Session) (place : Place) (report : Option String) :
      Step name s (s.collectIn name place report).1
  | substitute (s : Session) (place : Place) (slots : String) :
      Step name s (s.substituteIn name place slots).1
  | resolve (s : Session) (place : Place) (content : List Content) :
      Step name s (s.resolveAt name place (Content.copyAll content))
  | settle (s : Session) (place : Place) (settled : Bool) :
      Step name s (s.settleAt name place settled)

/-- What a session does to a document, one step after another. -/
def Steps (name : String) : Session → Session → Prop := Relation.ReflTransGen (Step name)

variable {s s' : Session} {name : String}

theorem setReport_eq (s : Session) (report : Option String) (r : Report) :
    ∃ reports, s.setReport report r = { s with reports := reports } := by
  cases report with
  | none => exact ⟨s.reports, rfl⟩
  | some name => exact ⟨putNamed name r s.reports, rfl⟩

theorem changeAt_eq (s : Session) (name : String) (place : Place) (f : Head → List Content → Content) :
    s.changeAt name place f = s ∧ Deed.change (s.tree name) place f = s.tree name ∨
      ∃ reports, s.changeAt name place f =
        { s.update name (Deed.change (s.tree name) place f) [] with reports := reports } := by
  unfold changeAt Deed.change
  cases Content.at? (s.tree name) place with
  | none => exact .inl ⟨rfl, rfl⟩
  | some item =>
    cases item with
    | text t => exact .inl ⟨rfl, rfl⟩
    | node h cs => exact .inr ⟨(s.update name (Content.putAt (s.tree name) [f h cs] place) []).reports, rfl⟩

/-- **A step is a deed**: the session gets the document that the deed makes, and changes nothing but reports
besides. -/
theorem Step.exists_deed (h : Step name s s') :
    ∃ deed : Deed,
      let r := deed.act s.slotMap (s.tree name)
      s' = s ∧ r.1 = s.tree name ∨ ∃ reports, s' = { s.update name r.1 r.2 with reports := reports } := by
  cases h with
  | expand x w place report stack =>
    exact ⟨.expand x w stack (s.start report).report place, .inr (setReport_eq _ report _)⟩
  | collect place report => exact ⟨.collect (s.start report).report place, .inr (setReport_eq _ report _)⟩
  | substitute place slots =>
    exact ⟨.substitute slots place, .inr ⟨(s.substituteIn name place slots).1.reports, rfl⟩⟩
  | resolve place content =>
    exact ⟨.resolve content place, changeAt_eq s name place fun h _ => .node h.resolved (Content.copyAll content)⟩
  | settle place settled =>
    exact ⟨.settle settled place, changeAt_eq s name place fun h cs => .node { h with settled := settled } cs⟩

/-! ### What a step leaves -/

theorem tree_update (s : Session) (name : String) (items released : List Content) :
    (s.update name items released).tree name = items := by
  have hput : ((putNamed name items s.trees).lookup name).getD [] = items := by
    rw [lookup_putNamed]
    rfl
  dsimp only [update]
  split
  · exact hput
  · exact hput

theorem tree_update_of_ne (s : Session) {other : String} (hne : other ≠ name) (items released : List Content) :
    (s.update name items released).tree other = s.tree other := by
  have hput : ((putNamed name items s.trees).lookup other).getD [] = s.tree other := by
    rw [lookup_putNamed_of_ne hne]
    rfl
  dsimp only [update]
  split
  · exact hput
  · exact hput

theorem slotMap_update (s : Session) {slots : String} {items released : List Content}
    (h : ∀ m, 0 < Content.places m (s.slotMap slots).contents → Content.places m (items ++ released) = 0) :
    (s.update name items released).slotMap slots = s.slotMap slots := by
  dsimp only [update]
  split
  · show ((s.slots.map fun e => (e.1, e.2.refresh (Content.marked (items ++ released)))).lookup slots).getD [] = _
    rw [lookup_map_right]
    unfold slotMap at h ⊢
    cases hs : s.slots.lookup slots with
    | none => rfl
    | some held =>
      rw [hs] at h
      exact SlotMap.refresh_of_places fun m hm => Content.lookup_marked (h m hm)
  · rfl

/-- What is kept when something is done to a document: slots that share no node with it, and the other documents;
and no node gets a place more in it. -/
structure Keeps (name : String) (s s' : Session) : Prop where
  slots : ∀ slots, Content.Apart (s.slotMap slots).contents (s.tree name) → s'.slotMap slots = s.slotMap slots
  places : ∀ a, Content.places a (s'.tree name) ≤ Content.places a (s.tree name)
  trees : ∀ other, other ≠ name → s'.tree other = s.tree other

theorem Keeps.refl (name : String) (s : Session) : Keeps name s s :=
  ⟨fun _ _ => rfl, fun _ => Nat.le_refl _, fun _ _ => rfl⟩

/-- Slots that are kept go on sharing no node with the document. -/
theorem Keeps.apart (h : Keeps name s s') {slots : String}
    (hapart : Content.Apart (s.slotMap slots).contents (s.tree name)) :
    Content.Apart (s'.slotMap slots).contents (s'.tree name) := by
  intro a
  rw [h.slots slots hapart]
  have := hapart a
  have := h.places a
  omega

theorem Keeps.trans {s'' : Session} (h : Keeps name s s') (h' : Keeps name s' s'') : Keeps name s s'' where
  slots slots hapart := (h'.slots slots (h.apart hapart)).trans (h.slots slots hapart)
  places a := Nat.le_trans (h'.places a) (h.places a)
  trees other hne := (h'.trees other hne).trans (h.trees other hne)

/-- **A step on a document leaves the others, and slots that share no node with it.** -/
theorem Step.frame (h : Step name s s') : Keeps name s s' := by
  obtain ⟨deed, hdeed⟩ := h.exists_deed
  have hle : ∀ a, _ := fun a => Deed.places_act_le (a := a) s.slotMap (s.tree name) deed
  rcases hdeed with ⟨rfl, -⟩ | ⟨reports, rfl⟩
  · exact .refl name s'
  · refine ⟨fun slots hapart => ?_, fun a => ?_, fun other hne => tree_update_of_ne s hne _ _⟩
    · refine slotMap_update s fun m hm => ?_
      have := hapart m
      have := hle m
      rw [Content.places_append]
      omega
    · have hsame := tree_update s name (deed.act s.slotMap (s.tree name)).1 (deed.act s.slotMap (s.tree name)).2
      have := hle a
      show Content.places a ((s.update name _ _).tree name) ≤ _
      rw [hsame]
      omega

/-- **So it is with one step after another.** -/
theorem Steps.frame (h : Steps name s s') : Keeps name s s' := by
  induction h with
  | refl => exact .refl name s
  | tail _ hlast ih => exact ih.trans hlast.frame

/-- **Substitution is plain where the slots share no node with the document**, and they go on sharing none. -/
theorem substituteIn_of_apart {slots : String} (hapart : Content.Apart (s.slotMap slots).contents (s.tree name)) :
    let s' := (s.substituteIn name [] slots).1
    s'.slotMap slots = s.slotMap slots ∧ s'.tree name = ((s.slotMap slots).fill (s.tree name)).content ∧
      Content.Apart (s'.slotMap slots).contents (s'.tree name) ∧
      ∀ other, other ≠ name → s'.tree other = s.tree other := by
  intro s'
  have hstep : Step name s s' := .substitute s [] slots
  refine ⟨hstep.frame.slots slots hapart, ?_, hstep.frame.apart hapart, hstep.frame.trees⟩
  rw [SlotMap.fill_eq_insertion, ← (SlotMap.fillShared_of_apart hapart false).1]
  exact tree_update s name _ []

end Session
end PageComposer
