/-
# The stores that sessions come to

A session begins with nothing, and then does deeds on documents, binds slots of their own, and takes slots from
the children of an include, which it shares with the document. Every store that it comes to is sound
(`Store.Built.sound`).

| step | store |
| --- | --- |
| a deed | `Store.Does` |
| `Session.bindSlots` | `Store.bind` |
| `Session.extractAt` | `Store.Extracts` |
-/

import PageComposer.Proofs.Session.Deeds

namespace PageComposer

/-! ### Slots of their own -/

theorem Content.markAll_append (next : Nat) (xs ys : List Content) :
    Content.markAll next (xs ++ ys) =
      ((Content.markAll next xs).1 ++ (Content.markAll (Content.markAll next xs).2 ys).1,
        (Content.markAll (Content.markAll next xs).2 ys).2) := by
  induction xs generalizing next with
  | nil => rfl
  | cons x xs ih => simp [Content.markAll, ih]

namespace SlotMap

/-- Slots in which every node without a mark gets the next one. -/
def markAll (next : Nat) : SlotMap → SlotMap × Nat
  | [] => ([], next)
  | s :: rest =>
    let first := Content.markAll next s.2
    let r := markAll first.2 rest
    ((s.1, first.1) :: r.1, r.2)

/-- Marking slots marks their content. -/
theorem contents_markAll (next : Nat) (slots : SlotMap) :
    ((slots.markAll next).1.contents, (slots.markAll next).2) = Content.markAll next slots.contents := by
  induction slots generalizing next with
  | nil => rfl
  | cons s rest ih =>
    obtain ⟨hcontents, hnext⟩ := Prod.mk.inj (ih (Content.markAll next s.2).2)
    show ((Content.markAll next s.2).1 ++ (markAll (Content.markAll next s.2).2 rest).1.contents,
      (markAll (Content.markAll next s.2).2 rest).2) = Content.markAll next (s.2 ++ SlotMap.contents rest)
    rw [Content.markAll_append, hcontents, hnext]

end SlotMap

namespace Store

variable {σ : Store} {a : Nat}

/-- The store with nothing in it. -/
def empty : Store where
  cell _ := none
  tree _ := []
  slots _ := []
  next := 0

/-- New slots with marks, and the first mark that has not been given out then. -/
def bound (σ : Store) (slots : SlotMap) : SlotMap × Nat :=
  SlotMap.markAll σ.next (slots.map fun s => (s.1, Content.copyAll s.2))

/-- The store with slots of their own. -/
def bind (σ : Store) (name : String) (slots : SlotMap) : Store :=
  { σ.write (σ.bound slots).1.contents with
    slots := Function.update σ.slots name ((σ.bound slots).1.map fun s => (s.1, Content.links s.2))
    next := (σ.bound slots).2 }

/-- The store with slots that are taken from children of an include. -/
def share (σ : Store) (name : String) (children : List Content) : Store :=
  let taken := (SlotMap.ofChildren children).map fun s => (s.1, Content.links s.2)
  { σ with slots := Function.update σ.slots name taken }

/-- Slots are taken from the node at a place of a document. -/
def Extracts (σ : Store) (tree : String) (place : Place) (name : String) (σ' : Store) : Prop :=
  ∃ items h cs, σ.HasTree tree items ∧ Content.at? items place = some (.node h cs) ∧ σ' = σ.share name cs

/-- The stores that a session comes to. -/
inductive Built : Store → Prop
  | empty : Built empty
  | does {σ σ' : Store} {name : String} {deed : Deed} (hσ : Built σ) (h : σ.Does name deed σ') : Built σ'
  | bind {σ : Store} (hσ : Built σ) (name : String) (slots : SlotMap) : Built (σ.bind name slots)
  | extract {σ σ' : Store} {tree name : String} {place : Place} (hσ : Built σ)
      (h : σ.Extracts tree place name σ') : Built σ'

theorem sound_empty : empty.Sound where
  fresh _ _ := rfl
  tree _ := ⟨[], rfl, holds_nil, fun _ => Nat.zero_le _⟩
  apart := by
    intro name name' xs ys _ hx hy
    have hnil : ∀ {n zs}, empty.HasTree n zs → zs = [] := fun h => List.map_eq_nil_iff.1 h.links
    rw [hnil hx]
    exact fun _ => .inl rfl
  slots _ := ⟨[], rfl, holds_nil⟩

section

variable {name : String} {slots : SlotMap}

/-- What is bound is content of its own, with marks that are given out then. -/
theorem contents_bound (σ : Store) (slots : SlotMap) :
    ∃ copies, (∀ a, Content.places a copies = 0) ∧ (σ.bound slots).1.contents = (Content.markAll σ.next copies).1 ∧
      (σ.bound slots).2 = (Content.markAll σ.next copies).2 := by
  have hmarked := SlotMap.contents_markAll σ.next (slots.map fun s => (s.1, Content.copyAll s.2))
  refine ⟨_, fun a => ?_, Prod.mk.inj hmarked⟩
  clear hmarked
  induction slots with
  | nil => rfl
  | cons s rest ih =>
    show Content.places a (Content.copyAll s.2 ++
      SlotMap.contents (rest.map fun s => (s.1, Content.copyAll s.2))) = 0
    rw [Content.places_append, Content.places_copyAll, ih]

/-- What is bound are new nodes, each once. -/
theorem places_bound (σ : Store) (slots : SlotMap) :
    Content.places a (σ.bound slots).1.contents = if σ.next ≤ a ∧ a < (σ.bound slots).2 then 1 else 0 := by
  obtain ⟨copies, hcopies, hcontents, hnext⟩ := contents_bound σ slots
  rw [hcontents, hnext, Content.places_markAll, hcopies, Nat.zero_add]

theorem le_bound (σ : Store) (slots : SlotMap) : σ.next ≤ (σ.bound slots).2 := by
  obtain ⟨copies, -, -, hnext⟩ := contents_bound σ slots
  rw [hnext]
  exact Content.le_markAll _ _

theorem holds_bound (σ : Store) (name : String) (slots : SlotMap) :
    (σ.bind name slots).Holds (σ.bound slots).1.contents := by
  refine holds_write (fun a => ?_) ?_
  · rw [places_bound]
    split <;> omega
  · obtain ⟨copies, -, hcontents, -⟩ := contents_bound σ slots
    rw [hcontents]
    exact Content.marked_markAll _ _

/-- Binding new slots leaves everything that is there. -/
theorem Holds.bind (hσ : σ.Fresh) {zs : List Content} (hz : σ.Holds zs) : (σ.bind name slots).Holds zs := by
  refine hz.write fun a => ?_
  rw [places_bound]
  split
  · rename_i hnew
    exact .inr (hz.places_eq_zero (hσ a hnew.1))
  · exact .inl rfl

/-- The slots that are bound are there, and the others stay. -/
theorem HasSlots.of_bind (σ : Store) (name : String) (slots : SlotMap) :
    (σ.bind name slots).HasSlots name (σ.bound slots).1 := by
  refine ⟨?_, holds_bound σ name slots⟩
  show _ = Function.update σ.slots name _ name
  rw [Function.update_self]

theorem HasSlots.bind_of_ne {other : String} {held : SlotMap} (hσ : σ.Fresh) (hne : other ≠ name)
    (hs : σ.HasSlots other held) : (σ.bind name slots).HasSlots other held := by
  refine ⟨?_, hs.holds.bind hσ⟩
  show _ = Function.update σ.slots name _ other
  rw [Function.update_of_ne hne, hs.links]

theorem HasTree.bind {tree : String} {items : List Content} (hσ : σ.Fresh) (hx : σ.HasTree tree items) :
    (σ.bind name slots).HasTree tree items := ⟨hx.links, hx.holds.bind hσ, hx.single⟩

/-- **Binding new slots leaves a sound store.** -/
theorem Sound.bind (hσ : σ.Sound) (name : String) (slots : SlotMap) : (σ.bind name slots).Sound where
  fresh b hb := by
    have hnew : (σ.bound slots).2 ≤ b := hb
    have hle := le_bound σ slots
    have hzero : Content.places b (σ.bound slots).1.contents = 0 := by
      rw [places_bound, if_neg (by omega)]
    show (σ.write (σ.bound slots).1.contents).cell b = none
    rw [cell_write_of_places hzero, hσ.fresh b (by omega)]
  tree other := by
    obtain ⟨items, hx⟩ := hσ.tree other
    exact ⟨items, hx.bind hσ.fresh⟩
  apart := by
    have hold : ∀ {other xs}, (σ.bind name slots).HasTree other xs → σ.HasTree other xs := by
      intro other xs h
      obtain ⟨ys, hy⟩ := hσ.tree other
      rwa [h.unique (hy.bind hσ.fresh)]
    intro n n' xs ys hne hxs hys
    exact hσ.apart hne (hold hxs) (hold hys)
  slots other := by
    by_cases hne : other = name
    · subst hne
      exact ⟨_, .of_bind σ other slots⟩
    · obtain ⟨held, hs⟩ := hσ.slots other
      exact ⟨held, hs.bind_of_ne hσ.fresh hne⟩

end

/-! ### Shared slots -/

theorem Holds.of_mem {items : List Content} (hi : σ.Holds items) {item : Content} (hmem : item ∈ items) :
    σ.Holds [item] := by
  obtain ⟨front, back, rfl⟩ := List.append_of_mem hmem
  have hback : σ.Holds ([item] ++ back) := (holds_append.1 hi).2
  exact (holds_append.1 hback).1

/-- What stands at a place is found with the document. -/
theorem Holds.at {place : Place} {items : List Content} (hi : σ.Holds items) {item : Content}
    (hat : Content.at? items place = some item) : σ.Holds [item] := by
  induction place generalizing items with
  | nil => cases hat
  | cons i rest ih =>
    cases rest with
    | nil => exact hi.of_mem (List.mem_of_getElem? hat)
    | cons j rest =>
      obtain ⟨first, hfirst, hbelow⟩ := Option.bind_eq_some_iff.1 hat
      have hhere := hi.of_mem (List.mem_of_getElem? hfirst)
      cases first with
      | text s => rw [Content.children, Content.at?_nil] at hbelow; cases hbelow
      | node h cs => exact ih (holds_node.1 hhere).2.1 hbelow

/-- What the children of an include bind is found with them. -/
theorem Holds.ofChildren {children : List Content} (hi : σ.Holds children) :
    σ.Holds (SlotMap.ofChildren children).contents := by
  have hall : ∀ slots : SlotMap, (∀ s ∈ slots, σ.Holds s.2) → σ.Holds slots.contents := by
    intro slots hs
    induction slots with
    | nil => exact holds_nil
    | cons s rest ih =>
      rw [List.forall_mem_cons] at hs
      exact holds_append.2 ⟨hs.1, ih hs.2⟩
  refine hall _ fun s hs => ?_
  obtain ⟨h, -, hmem⟩ := Content.mem_of_binding? (SlotMap.mem_of_mem_ofChildren hs)
  exact (holds_node.1 (hi.of_mem hmem)).2.1

/-- **Taking slots from a document leaves a sound store.** -/
theorem Sound.extracts (hσ : σ.Sound) {tree name : String} {place : Place} {σ' : Store}
    (h : σ.Extracts tree place name σ') : σ'.Sound := by
  obtain ⟨items, g, cs, hx, hat, rfl⟩ := h
  have htree : ∀ {n xs}, (σ.share name cs).HasTree n xs ↔ σ.HasTree n xs :=
    ⟨fun h => ⟨h.links, h.holds, h.single⟩, fun h => ⟨h.links, h.holds, h.single⟩⟩
  refine ⟨hσ.fresh, fun n => (hσ.tree n).imp fun _ => htree.2,
    fun hne hxs hys => hσ.apart hne (htree.1 hxs) (htree.1 hys), fun other => ?_⟩
  by_cases hne : other = name
  · subst hne
    refine ⟨SlotMap.ofChildren cs, ?_, ((holds_node.1 (hx.holds.at hat)).2.1).ofChildren⟩
    show _ = Function.update σ.slots other _ other
    rw [Function.update_self]
  · obtain ⟨held, hs⟩ := hσ.slots other
    refine ⟨held, ?_, hs.holds⟩
    show _ = Function.update σ.slots name _ other
    rw [Function.update_of_ne hne, hs.links]

/-- **Every store that a session comes to is sound.** -/
theorem Built.sound (h : Built σ) : σ.Sound := by
  induction h with
  | empty => exact sound_empty
  | does _ hdoes ih => exact ih.does hdoes
  | bind _ name slots ih => exact ih.bind name slots
  | extract _ hextracts ih => exact ih.extracts hextracts

end Store
end PageComposer
