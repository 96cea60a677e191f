/-
# Deeds on the documents of a store

What a session does to a document can be told for the store behind it (`Store.Does`). A deed takes the document
that the store shows and computes what becomes of it as the session does (`Deed.act`). Nodes that are new then
get marks, and all nodes of the document and of what was released from it are written (`Store.leave`).

| deed | brings | releases |
| --- | --- | --- |
| `set` | new content in place of the document | |
| `expand` | fragments | the content of resolved includes |
| `collect` | | |
| `substitute` | copies of slots | |
| `resolve` | new content below a node | |
| `settle` | | |

A store is sound if every document and all slots are found in it, no node has two places in a document, and no
two documents have a node in common. Deeds keep it so (`Store.Sound.does`), and content apart from the
document stays as it is (`Store.Does.frame`).
-/

import Mathlib.Logic.Relation
import PageComposer.Proofs.Expansion.Places
import PageComposer.Proofs.Session.Store

namespace PageComposer

/-! ### What a deed makes of a document -/

/-- What can be done to a document, at a place or as a whole. -/
inductive Deed where
  | set (content : List Content)
  | expand (x : Expander) (w : FileTree) (stack : List Path) (report : Report) (place : Place)
  | collect (report : Report) (place : Place)
  | substitute (slots : String) (place : Place)
  | resolve (content : List Content) (place : Place)
  | settle (settled : Bool) (place : Place)

namespace Deed

/-- A document with the node at a place changed. -/
def change (items : List Content) (place : Place) (f : Head → List Content → Content) : List Content :=
  match Content.at? items place with
  | some (.node h cs) => Content.putAt items [f h cs] place
  | _ => items

/-- The document after a deed, and what was released from it; `slots` gives what slots hold. -/
def act (slots : String → SlotMap) (items : List Content) : Deed → List Content × List Content
  | .set content => (Content.copyAll content, [])
  | .expand x w stack report place =>
    let r := x.expand w stack { report := report } (Content.focus items place)
    (Content.putAt items r.1 place, r.2.released)
  | .collect report place =>
    let r := ({ report := report } : Run).announce (Content.focus items place)
    (Content.putAt items r.1 place, r.2.released)
  | .substitute name place =>
    (Content.putAt items (SlotMap.fillShared (slots name) false (Content.focus items place)).1 place, [])
  | .resolve content place => (change items place fun h _ => .node h.resolved (Content.copyAll content), [])
  | .settle settled place => (change items place fun h cs => .node { h with settled := settled } cs, [])

variable {a : Nat}

theorem places_change_le (items : List Content) (place : Place) {f : Head → List Content → Content}
    (hf : ∀ h cs, Content.places a [f h cs] ≤ Content.places a [.node h cs]) :
    Content.places a (change items place f) ≤ Content.places a items := by
  unfold change
  split
  · rename_i h cs hat
    have hfocus : Content.focus items place = [.node h cs] := by
      cases place with
      | nil => cases hat
      | cons i rest => rw [Content.focus, hat, Option.toList_some]; exact List.cons_ne_nil i rest
    have hput := Content.places_putAt_le (a := a) [f h cs] place items
    have hle := hf h cs
    rw [hfocus] at hput
    omega
  · exact Nat.le_refl _

/-- **A deed gives no node a place more**, in the document and in what is released together. -/
theorem places_act_le (slots : String → SlotMap) (items : List Content) (deed : Deed) :
    Content.places a (deed.act slots items).1 + Content.places a (deed.act slots items).2 ≤
      Content.places a items := by
  cases deed with
  | set content =>
    dsimp only [act]
    rw [Content.places_copyAll, Content.places_nil]
    omega
  | expand x w stack report place =>
    have hput := Content.places_putAt_le (a := a)
      (x.expand w stack { report := report } (Content.focus items place)).1 place items
    have howes := (Expander.owes_expand (a := a) (x := x) (w := w) stack { report := report }
      (Content.focus items place)).1
    rw [Content.places_nil] at howes
    dsimp only [act]
    omega
  | collect report place =>
    have hput := Content.places_putAt_le (a := a)
      (({ report := report } : Run).announce (Content.focus items place)).1 place items
    have hreleased : (({ report := report } : Run).announce (Content.focus items place)).2.released = [] :=
      Run.released_announce _ _
    have hsame : Content.places a (({ report := report } : Run).announce (Content.focus items place)).1 =
        Content.places a (Content.focus items place) := by
      rw [Run.announce_eq, Content.places_announced]
    dsimp only [act]
    rw [hreleased, Content.places_nil]
    omega
  | substitute name place =>
    have hput := Content.places_putAt_le (a := a)
      (SlotMap.fillShared (slots name) false (Content.focus items place)).1 place items
    have hle := SlotMap.places_fillShared_le (a := a) (slots name) false (Content.focus items place)
    dsimp only [act]
    rw [Content.places_nil]
    omega
  | resolve content place =>
    refine places_change_le items place fun h cs => ?_
    rw [Content.places_node, Content.places_node, Content.places_copyAll, show h.resolved.mark = h.mark from rfl]
    omega
  | settle settled place =>
    refine places_change_le items place fun h cs => ?_
    rw [Content.places_node, Content.places_node]

end Deed

/-! ### Stores -/

namespace Store

variable {σ σ' : Store} {a : Nat}

/-- The document of a name, in which no node has two places. -/
structure HasTree (σ : Store) (name : String) (items : List Content) : Prop where
  links : Content.links items = σ.tree name
  holds : σ.Holds items
  single : Content.Single items

/-- The slots of a name. -/
structure HasSlots (σ : Store) (name : String) (slots : SlotMap) : Prop where
  links : slots.map (fun s => (s.1, Content.links s.2)) = σ.slots name
  holds : σ.Holds slots.contents

theorem HasTree.unique {name : String} {xs ys : List Content} (hx : σ.HasTree name xs) (hy : σ.HasTree name ys) :
    xs = ys := hx.holds.unique hy.holds (hx.links.trans hy.links.symm)

theorem HasSlots.unique {name : String} {slots slots' : SlotMap} (h : σ.HasSlots name slots)
    (h' : σ.HasSlots name slots') : slots = slots' := by
  have hlinks := h.links.trans h'.links.symm
  have hall := h.holds
  have hall' := h'.holds
  clear h h'
  induction slots generalizing slots' with
  | nil =>
    cases slots' with
    | nil => rfl
    | cons s rest => cases hlinks
  | cons s rest ih =>
    cases slots' with
    | nil => cases hlinks
    | cons s' rest' =>
      obtain ⟨hfirst, hrest⟩ := List.cons.inj hlinks
      obtain ⟨hname, hcontent⟩ := Prod.mk.inj hfirst
      obtain ⟨hs, hrests⟩ := holds_append.1 hall
      obtain ⟨hs', hrests'⟩ := holds_append.1 hall'
      rw [ih hrest hrests hrests', Prod.ext hname (hs.unique hs' hcontent)]

/-- All documents and slots are there, and no two documents have a node in common. -/
structure Sound (σ : Store) : Prop where
  fresh : ∀ a, σ.next ≤ a → σ.cell a = none
  tree : ∀ name, ∃ items, σ.HasTree name items
  apart : ∀ {name name' xs ys}, name ≠ name' → σ.HasTree name xs → σ.HasTree name' ys → Content.Apart xs ys
  slots : ∀ name, ∃ slots, σ.HasSlots name slots

/-! ### What a deed leaves -/

/-- What is written of what a deed makes: the document and what was released, new nodes with new marks. -/
def written (σ : Store) (r : List Content × List Content) : List Content :=
  let tree := Content.markAll σ.next r.1
  tree.1 ++ (Content.markAll tree.2 r.2).1

/-- The first mark that has not been given out then. -/
def nextAfter (σ : Store) (r : List Content × List Content) : Nat :=
  (Content.markAll (Content.markAll σ.next r.1).2 r.2).2

/-- The store that a deed leaves, if it makes `r` of the document of a name. -/
def leave (σ : Store) (name : String) (r : List Content × List Content) : Store :=
  { σ.write (σ.written r) with
    tree := Function.update σ.tree name (Content.links (Content.markAll σ.next r.1).1)
    next := σ.nextAfter r }

/-- What is made of a document gives none of its nodes a place more. -/
def Within (items : List Content) (r : List Content × List Content) : Prop :=
  ∀ a, Content.places a r.1 + Content.places a r.2 ≤ Content.places a items

/-- From a mark on, there is no node. -/
def Fresh (σ : Store) : Prop := ∀ a, σ.next ≤ a → σ.cell a = none

section

variable {name : String} {items zs : List Content} {r : List Content × List Content}

theorem le_nextAfter (σ : Store) (r : List Content × List Content) : σ.next ≤ σ.nextAfter r :=
  Nat.le_trans (Content.le_markAll _ _) (Content.le_markAll _ _)

/-- What is written are old nodes of the document and new ones, each once. -/
theorem places_written (hr : Within items r) :
    Content.places a (σ.written r) ≤
      Content.places a items + if σ.next ≤ a ∧ a < σ.nextAfter r then 1 else 0 := by
  have hbound := hr a
  have hle := Content.le_markAll σ.next r.1
  have hle' := Content.le_markAll (Content.markAll σ.next r.1).2 r.2
  rw [written, nextAfter, Content.places_append, Content.places_markAll, Content.places_markAll]
  split_ifs <;> omega

theorem marked_written (σ : Store) (r : List Content × List Content) : Content.Marked (σ.written r) := by
  intro g hg
  rw [written, Content.headsAll_append, List.mem_append] at hg
  rcases hg with hg | hg
  · exact Content.marked_markAll _ _ g hg
  · exact Content.marked_markAll _ _ g hg

theorem single_written (hσ : σ.Fresh) (hx : σ.HasTree name items) (hr : Within items r) :
    Content.Single (σ.written r) := by
  intro a
  have hle := places_written (σ := σ) (a := a) hr
  have hone := hx.single a
  split at hle
  · rename_i hnew
    have := hx.holds.places_eq_zero (hσ a hnew.1)
    omega
  · omega

/-- Old content apart from the document is apart from what is written. -/
theorem apart_written (hσ : σ.Fresh) (hr : Within items r) (hz : σ.Holds zs) (hapart : Content.Apart zs items) :
    Content.Apart zs (σ.written r) := by
  intro a
  have hle := places_written (σ := σ) (a := a) hr
  split at hle
  · rename_i hnew
    exact .inl (hz.places_eq_zero (hσ a hnew.1))
  · have := hapart a
    omega

/-- **The document that a deed leaves is what it made**, with marks for the new nodes. -/
theorem HasTree.leave (hσ : σ.Fresh) (hx : σ.HasTree name items) (hr : Within items r) :
    (σ.leave name r).HasTree name (Content.markAll σ.next r.1).1 := by
  have hsingle := single_written hσ hx hr
  have hholds : (σ.write (σ.written r)).Holds (σ.written r) := holds_write hsingle (marked_written σ r)
  have htree : (σ.leave name r).tree name = Content.links (Content.markAll σ.next r.1).1 := by
    show Function.update σ.tree name _ name = _
    exact Function.update_self ..
  refine ⟨htree.symm, (holds_append.1 hholds).1, fun a => ?_⟩
  have := hsingle a
  rw [written, Content.places_append] at this
  omega

/-- **Content apart from the document stays, and stays apart.** -/
theorem Holds.leave (name : String) (hσ : σ.Fresh) (hr : Within items r) (hz : σ.Holds zs)
    (hapart : Content.Apart zs items) :
    (σ.leave name r).Holds zs ∧ Content.Apart zs (Content.markAll σ.next r.1).1 := by
  have hw := apart_written hσ hr hz hapart
  refine ⟨hz.write hw.symm, fun a => ?_⟩
  have := hw a
  rw [written, Content.places_append] at this
  omega

theorem Fresh.leave (hσ : σ.Fresh) (hx : σ.HasTree name items) (hr : Within items r) : (σ.leave name r).Fresh := by
  intro a ha
  have hle := places_written (σ := σ) (a := a) hr
  have hnew : σ.nextAfter r ≤ a := ha
  have hold : σ.cell a = none := hσ a (Nat.le_trans (le_nextAfter σ r) hnew)
  rw [if_neg (by omega), hx.holds.places_eq_zero hold] at hle
  show (σ.write (σ.written r)).cell a = none
  rw [cell_write_of_places (by omega), hold]

/-- Slots show something after every deed. -/
theorem HasSlots.exists_leave {slots : SlotMap} {other : String} (hσ : σ.Fresh) (hx : σ.HasTree name items)
    (hr : Within items r) (hs : σ.HasSlots other slots) : ∃ slots', (σ.leave name r).HasSlots other slots' := by
  have hsingle := single_written hσ hx hr
  have hgo : ∀ slots : SlotMap, σ.Holds slots.contents → ∃ slots' : SlotMap,
      slots'.map (fun s => (s.1, Content.links s.2)) = slots.map (fun s => (s.1, Content.links s.2)) ∧
        (σ.write (σ.written r)).Holds slots'.contents := by
    intro slots hall
    induction slots with
    | nil => exact ⟨[], rfl, holds_nil⟩
    | cons s rest ih =>
      obtain ⟨hfirst, hrest⟩ := holds_append.1 hall
      obtain ⟨items', hlinks, hitems'⟩ := hfirst.exists_write hsingle (marked_written σ r)
      obtain ⟨rest', hlinks', hrest'⟩ := ih hrest
      exact ⟨(s.1, items') :: rest', by rw [List.map_cons, List.map_cons, hlinks, hlinks'],
        holds_append.2 ⟨hitems', hrest'⟩⟩
  obtain ⟨slots', hlinks, hall⟩ := hgo slots hs.holds
  exact ⟨slots', hlinks.trans hs.links, hall⟩

/-- A document of another name stays. -/
theorem HasTree.leave_of_ne {other : String} {ys : List Content} (hσ : σ.Fresh) (hr : Within items r)
    (hne : other ≠ name) (hy : σ.HasTree other ys) (hapart : Content.Apart ys items) :
    (σ.leave name r).HasTree other ys :=
  ⟨hy.links.trans (Function.update_of_ne hne ..).symm, (hy.holds.leave name hσ hr hapart).1, hy.single⟩

/-- **What a deed leaves is sound.** -/
theorem Sound.leave (hσ : σ.Sound) (hx : σ.HasTree name items) (hr : Within items r) : (σ.leave name r).Sound where
  fresh := Fresh.leave hσ.fresh hx hr
  tree other := by
    by_cases hne : other = name
    · subst hne
      exact ⟨_, hx.leave hσ.fresh hr⟩
    · obtain ⟨ys, hy⟩ := hσ.tree other
      exact ⟨ys, hy.leave_of_ne hσ.fresh hr hne (hσ.apart hne hy hx)⟩
  apart := by
    -- the documents are those that were there, but for the one of the deed
    have hmine : ∀ {xs}, (σ.leave name r).HasTree name xs → xs = (Content.markAll σ.next r.1).1 :=
      fun h => h.unique (hx.leave hσ.fresh hr)
    have hother : ∀ {other xs}, other ≠ name → (σ.leave name r).HasTree other xs → σ.HasTree other xs := by
      intro other xs hne h
      obtain ⟨ys, hy⟩ := hσ.tree other
      rwa [h.unique (hy.leave_of_ne hσ.fresh hr hne (hσ.apart hne hy hx))]
    intro n n' xs ys hne hxs hys
    by_cases hn : n = name
    · subst hn
      have hys' := hother hne.symm hys
      rw [hmine hxs]
      exact (hys'.holds.leave n hσ.fresh hr (hσ.apart hne.symm hys' hx)).2.symm
    · have hxs' := hother hn hxs
      by_cases hn' : n' = name
      · subst hn'
        rw [hmine hys]
        exact (hxs'.holds.leave n' hσ.fresh hr (hσ.apart hne hxs' hx)).2
      · exact hσ.apart hne hxs' (hother hn' hys)
  slots other := by
    obtain ⟨slots, hs⟩ := hσ.slots other
    exact hs.exists_leave hσ.fresh hx hr

end

/-! ### Deeds -/

/-- A deed on the document of a name. -/
def Does (σ : Store) (name : String) (deed : Deed) (σ' : Store) : Prop :=
  ∃ items slots, σ.HasTree name items ∧ (∀ n, σ.HasSlots n (slots n)) ∧ σ' = σ.leave name (deed.act slots items)

/-- Deeds on the document of a name, one after another. -/
def Steps (name : String) : Store → Store → Prop :=
  Relation.ReflTransGen fun σ σ' => ∃ deed, σ.Does name deed σ'

variable {name : String} {deed : Deed}

/-- In a sound store every deed can be done. -/
theorem Sound.exists_does (hσ : σ.Sound) (name : String) (deed : Deed) : ∃ σ', σ.Does name deed σ' := by
  obtain ⟨items, hx⟩ := hσ.tree name
  choose slots hs using hσ.slots
  exact ⟨_, items, slots, hx, hs, rfl⟩

/-- **A deed leaves a sound store.** -/
theorem Sound.does (hσ : σ.Sound) (h : σ.Does name deed σ') : σ'.Sound := by
  obtain ⟨items, slots, hx, -, rfl⟩ := h
  exact hσ.leave hx fun a => Deed.places_act_le slots items deed

/-- **Content apart from a document stays as it is when something is done to that**, and stays apart. -/
theorem Does.frame (hσ : σ.Sound) (h : σ.Does name deed σ') {xs zs : List Content} (hx : σ.HasTree name xs)
    (hz : σ.Holds zs) (hapart : Content.Apart zs xs) :
    σ'.Holds zs ∧ ∃ xs', σ'.HasTree name xs' ∧ Content.Apart zs xs' := by
  obtain ⟨items, slots, hitems, -, rfl⟩ := h
  obtain rfl := hx.unique hitems
  have hr : Within xs (deed.act slots xs) := fun a => Deed.places_act_le slots xs deed
  obtain ⟨hstays, happarts⟩ := hz.leave name hσ.fresh hr hapart
  exact ⟨hstays, _, hitems.leave hσ.fresh hr, happarts⟩

/-- A deed leaves the lists of slots, and those of other documents. -/
theorem Does.lists (h : σ.Does name deed σ') :
    σ'.slots = σ.slots ∧ ∀ other, other ≠ name → σ'.tree other = σ.tree other := by
  obtain ⟨items, slots, -, -, rfl⟩ := h
  exact ⟨rfl, fun other hne => Function.update_of_ne hne ..⟩

/-- **So it is with deeds one after another.** -/
theorem Steps.frame (hσ : σ.Sound) (h : Steps name σ σ') {xs zs : List Content} (hx : σ.HasTree name xs)
    (hz : σ.Holds zs) (hapart : Content.Apart zs xs) :
    σ'.Sound ∧ σ'.Holds zs ∧ (∃ xs', σ'.HasTree name xs' ∧ Content.Apart zs xs') ∧ σ'.slots = σ.slots ∧
      ∀ other, other ≠ name → σ'.tree other = σ.tree other := by
  induction h with
  | refl => exact ⟨hσ, hz, ⟨xs, hx, hapart⟩, rfl, fun _ _ => rfl⟩
  | tail _ hlast ih =>
    obtain ⟨deed, hdoes⟩ := hlast
    obtain ⟨hsound, hstays, ⟨ws, hw, hwz⟩, hslots, htrees⟩ := ih
    obtain ⟨hstays', hrest⟩ := hdoes.frame hsound hw hstays hwz
    obtain ⟨hslots', htrees'⟩ := hdoes.lists
    exact ⟨hsound.does hdoes, hstays', hrest, hslots'.trans hslots,
      fun other hne => (htrees' other hne).trans (htrees other hne)⟩

end Store
end PageComposer
