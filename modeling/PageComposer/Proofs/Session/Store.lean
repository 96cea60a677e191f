/-
# A store of nodes

A session holds documents and slots that can have nodes in common. What it stands for is a store in which
every node has one cell, whoever lists it: the lists of documents, of slots and of the cells themselves hold
texts and marks (`Store`). What a document holds is what is found by following the marks
(`Store.Holds`, `Store.HasTree`, `Store.HasSlots`), and it is found in one way (`Store.Holds.unique`).

A change is written cell by cell (`Store.write`). Where it is written to

| content | shows afterwards |
| --- | --- |
| what is written | itself (`Store.holds_write`) |
| content without a node of it | what it did (`Store.Holds.write`) |
| any content | something (`Store.Holds.exists_write`) |
-/

import Mathlib.Logic.Function.Basic
import PageComposer.Proofs.Session.Shared

namespace PageComposer

/-- What a list holds at a place: a text, or a node by its mark. -/
inductive Link where
  | text (s : String)
  | node (mark : Option Nat)
  deriving Repr, DecidableEq, Inhabited

/-- A node: its head and what its list holds. -/
structure Cell where
  head : Head
  links : List Link
  deriving Repr, DecidableEq, Inhabited

/-- Documents and slots over nodes that they may have in common. -/
structure Store where
  /-- The node with a mark. -/
  cell : Nat → Option Cell
  /-- The document of a name. -/
  tree : String → List Link
  /-- The slots of a name. -/
  slots : String → List (String × List Link)
  /-- From here on no mark has been given out. -/
  next : Nat

namespace Content

/-- An item as a list holds it. -/
def link : Content → Link
  | .text s => .text s
  | .node h _ => .node h.mark

/-- A content list as a store holds it. -/
def links (items : List Content) : List Link := items.map link

@[simp] theorem links_nil : links [] = [] := rfl

@[simp] theorem links_cons (item : Content) (rest : List Content) :
    links (item :: rest) = item.link :: links rest := rfl

/-- The cell that a node makes. -/
def cell? : Content → Option Cell
  | .text _ => none
  | .node h cs => some ⟨h, links cs⟩

/-- The node with a mark among the nodes of a content list. -/
def node? (a : Nat) (items : List Content) : Option Content :=
  (nodesAll items).find? fun item => item.mark? == some a

/-! ### The nodes of a document -/

variable {a : Nat}

theorem places_eq_countP (items : List Content) :
    places a items = (nodesAll items).countP fun item => item.mark? == some a := by
  rw [places, headsAll, List.countP_filterMap]
  refine List.countP_congr fun item _ => ?_
  cases item <;> simp [mark?, head?]

/-- What is found is a node with the mark. -/
theorem of_node? {items : List Content} {item : Content} (h : node? a items = some item) :
    ∃ g cs, item = .node g cs ∧ .node g cs ∈ nodesAll items ∧ g.mark = some a := by
  have hmem := List.mem_of_find?_eq_some h
  have hmark : item.mark? = some a := by simpa using List.find?_some h
  cases item with
  | text s => cases hmark
  | node g cs => exact ⟨g, cs, rfl, hmem, hmark⟩

theorem node?_eq_none_iff {items : List Content} : node? a items = none ↔ places a items = 0 := by
  rw [places_eq_countP, List.countP_eq_zero, node?, List.find?_eq_none]

/-- A node that has one place is found. -/
theorem node?_of_mem {items : List Content} (hs : places a items ≤ 1) {h : Head} {cs : List Content}
    (hn : .node h cs ∈ nodesAll items) (hm : h.mark = some a) : node? a items = some (.node h cs) := by
  rw [places_eq_countP] at hs
  unfold node?
  generalize nodesAll items = ns at hs hn ⊢
  induction ns with
  | nil => cases hn
  | cons n rest ih =>
    rw [List.countP_cons] at hs
    rw [List.find?_cons]
    cases hp : n.mark? == some a with
    | true =>
      rw [if_pos hp] at hs
      rcases List.mem_cons.1 hn with rfl | hrest
      · rfl
      · have hpos : 0 < rest.countP fun item => item.mark? == some a :=
          List.countP_pos_iff.2 ⟨_, hrest, by simp [mark?, head?, hm]⟩
        omega
    | false =>
      refine ih (by omega) ((List.mem_cons.1 hn).resolve_left ?_)
      rintro rfl
      simp [mark?, head?, hm] at hp

theorem nodesAll_node (h : Head) (cs rest : List Content) :
    nodesAll (.node h cs :: rest) = .node h cs :: (nodesAll cs ++ nodesAll rest) := rfl

end Content

/-! ### What a store shows -/

namespace Store

variable {σ : Store} {a : Nat}

/-- Content that is found in the store: each of its nodes is the cell of its mark. -/
def Holds (σ : Store) (items : List Content) : Prop :=
  ∀ h cs, .node h cs ∈ Content.nodesAll items → ∃ a, h.mark = some a ∧ σ.cell a = some ⟨h, Content.links cs⟩

theorem holds_nil : σ.Holds [] := fun _ _ hn => by cases hn

theorem holds_text {s : String} {rest : List Content} : σ.Holds (.text s :: rest) ↔ σ.Holds rest := .rfl

theorem holds_node {h : Head} {cs rest : List Content} :
    σ.Holds (.node h cs :: rest) ↔
      (∃ a, h.mark = some a ∧ σ.cell a = some ⟨h, Content.links cs⟩) ∧ σ.Holds cs ∧ σ.Holds rest := by
  unfold Holds
  rw [Content.nodesAll_node]
  constructor
  · intro hall
    exact ⟨hall h cs List.mem_cons_self,
      fun g ds hn => hall g ds (List.mem_cons_of_mem _ (List.mem_append_left _ hn)),
      fun g ds hn => hall g ds (List.mem_cons_of_mem _ (List.mem_append_right _ hn))⟩
  · rintro ⟨hhere, hcs, hrest⟩ g ds hn
    rcases List.mem_cons.1 hn with heq | hn
    · cases heq
      exact hhere
    · rcases List.mem_append.1 hn with hn | hn
      · exact hcs g ds hn
      · exact hrest g ds hn

theorem holds_append {xs ys : List Content} : σ.Holds (xs ++ ys) ↔ σ.Holds xs ∧ σ.Holds ys := by
  unfold Holds
  rw [Content.nodesAll_append]
  constructor
  · intro hall
    exact ⟨fun g ds hn => hall g ds (List.mem_append_left _ hn),
      fun g ds hn => hall g ds (List.mem_append_right _ hn)⟩
  · rintro ⟨hx, hy⟩ g ds hn
    rcases List.mem_append.1 hn with hn | hn
    · exact hx g ds hn
    · exact hy g ds hn

/-- The content of a node is found with the node. -/
theorem Holds.below {items : List Content} (hi : σ.Holds items) {h : Head} {cs : List Content}
    (hn : .node h cs ∈ Content.nodesAll items) : σ.Holds cs := by
  induction items using Content.list_induction with
  | nil => cases hn
  | text s rest ih => exact ih hi hn
  | node g ds rest ihc ih =>
    obtain ⟨-, hds, hrest⟩ := holds_node.1 hi
    rw [Content.nodesAll_node] at hn
    rcases List.mem_cons.1 hn with heq | hn
    · cases heq
      exact hds
    · rcases List.mem_append.1 hn with hn | hn
      · exact ihc hds hn
      · exact ih hrest hn

/-- **A store shows one content under a list.** -/
theorem Holds.unique {xs ys : List Content} (hx : σ.Holds xs) (hy : σ.Holds ys)
    (hlinks : Content.links xs = Content.links ys) : xs = ys := by
  induction xs using Content.list_induction generalizing ys with
  | nil =>
    cases ys with
    | nil => rfl
    | cons y rest => cases hlinks
  | text s rest ih =>
    cases ys with
    | nil => cases hlinks
    | cons y rest' =>
      obtain ⟨hfirst, hrest⟩ := List.cons.inj hlinks
      cases y with
      | node g ds => cases hfirst
      | text t =>
        obtain rfl := Link.text.inj hfirst
        rw [ih (holds_text.1 hx) (holds_text.1 hy) hrest]
  | node h cs rest ihc ih =>
    cases ys with
    | nil => cases hlinks
    | cons y rest' =>
      obtain ⟨hfirst, hrest⟩ := List.cons.inj hlinks
      cases y with
      | text t => cases hfirst
      | node g ds =>
        obtain ⟨⟨m, hm, hcell⟩, hcs, hxs⟩ := holds_node.1 hx
        obtain ⟨⟨m', hm', hcell'⟩, hds, hys⟩ := holds_node.1 hy
        have hmark : h.mark = g.mark := Link.node.inj hfirst
        rw [hm, hm'] at hmark
        obtain rfl := Option.some.inj hmark
        obtain ⟨rfl, hbelow⟩ := Cell.mk.inj (Option.some.inj (hcell.symm.trans hcell'))
        rw [ihc hcs hds hbelow, ih hxs hys hrest]

/-- Every node that is found has a mark. -/
theorem Holds.marked {items : List Content} (hi : σ.Holds items) : Content.Marked items := by
  intro g hg
  obtain ⟨item, hn, hhead⟩ := List.mem_filterMap.1 hg
  cases item with
  | text s => cases hhead
  | node h cs =>
    obtain rfl := Option.some.inj hhead
    obtain ⟨m, hm, -⟩ := hi h cs hn
    rw [hm]
    rfl

/-- A node that is found has a cell. -/
theorem Holds.places_eq_zero {items : List Content} (hi : σ.Holds items) (ha : σ.cell a = none) :
    Content.places a items = 0 := by
  rw [← Content.node?_eq_none_iff]
  cases hn : Content.node? a items with
  | none => rfl
  | some item =>
    obtain ⟨g, cs, -, hmem, hm⟩ := Content.of_node? hn
    obtain ⟨m, hm', hcell⟩ := hi g cs hmem
    obtain rfl := Option.some.inj (hm.symm.trans hm')
    rw [ha] at hcell
    cases hcell

/-! ### Writing -/

/-- The store in which the nodes of `items` are as they stand there. -/
def write (σ : Store) (items : List Content) : Store :=
  { σ with cell := fun a => ((Content.node? a items).map Content.cell?).getD (σ.cell a) }

/-- Where no node is written a cell stays. -/
theorem cell_write_of_places {items : List Content} (h : Content.places a items = 0) :
    (σ.write items).cell a = σ.cell a := by
  show ((Content.node? a items).map Content.cell?).getD (σ.cell a) = _
  rw [Content.node?_eq_none_iff.2 h]
  rfl

theorem cell_write {items : List Content} (hs : Content.places a items ≤ 1) {h : Head} {cs : List Content}
    (hn : .node h cs ∈ Content.nodesAll items) (hm : h.mark = some a) :
    (σ.write items).cell a = some ⟨h, Content.links cs⟩ := by
  show ((Content.node? a items).map Content.cell?).getD (σ.cell a) = _
  rw [Content.node?_of_mem hs hn hm]
  rfl

/-- **What is written is found**, if every node in it has a mark and no node two places. -/
theorem holds_write {items : List Content} (hs : Content.Single items) (hm : Content.Marked items) :
    (σ.write items).Holds items := by
  intro h cs hn
  obtain ⟨m, hmark⟩ := Option.isSome_iff_exists.1 (hm h (List.mem_filterMap.2 ⟨_, hn, rfl⟩))
  exact ⟨m, hmark, cell_write (hs m) hn hmark⟩

/-- **Content apart from what is written stays.** -/
theorem Holds.write {new items : List Content} (hi : σ.Holds items) (hapart : Content.Apart new items) :
    (σ.write new).Holds items := by
  intro h cs hn
  obtain ⟨m, hm, hcell⟩ := hi h cs hn
  refine ⟨m, hm, ?_⟩
  have hpos : 0 < Content.places m items := Content.places_pos_iff.2 ⟨h, List.mem_filterMap.2 ⟨_, hn, rfl⟩, hm⟩
  have hzero : Content.places m new = 0 := by
    have := hapart m
    omega
  rw [cell_write_of_places hzero, hcell]

/-- **All content goes on showing something.** -/
theorem Holds.exists_write {new items : List Content} (hi : σ.Holds items) (hs : Content.Single new)
    (hm : Content.Marked new) :
    ∃ items', Content.links items' = Content.links items ∧ (σ.write new).Holds items' := by
  induction items using Content.list_induction with
  | nil => exact ⟨[], rfl, holds_nil⟩
  | text s rest ih =>
    obtain ⟨rest', hlinks, hrest⟩ := ih hi
    exact ⟨.text s :: rest', by simp [hlinks, Content.link], holds_text.2 hrest⟩
  | node h cs rest ihc ih =>
    obtain ⟨⟨m, hmark, hcell⟩, hcs, hxs⟩ := holds_node.1 hi
    obtain ⟨rest', hlinks, hrest⟩ := ih hxs
    cases hn : Content.node? m new with
    | none =>
      -- the node itself stays; below it there may be changes
      obtain ⟨cs', hbelow, hcs'⟩ := ihc hcs
      have hsame : (σ.write new).cell m = some ⟨h, Content.links cs'⟩ := by
        rw [cell_write_of_places (Content.node?_eq_none_iff.1 hn), hcell, hbelow]
      exact ⟨.node h cs' :: rest', by simp [hlinks, Content.link], holds_node.2 ⟨⟨m, hmark, hsame⟩, hcs', hrest⟩⟩
    | some item =>
      obtain ⟨g, ds, -, hmem, hg⟩ := Content.of_node? hn
      have hnew := holds_write (σ := σ) hs hm
      exact ⟨.node g ds :: rest', by simp [hlinks, Content.link, hmark, hg],
        holds_node.2 ⟨hnew g ds hmem, hnew.below hmem, hrest⟩⟩

end Store
end PageComposer
