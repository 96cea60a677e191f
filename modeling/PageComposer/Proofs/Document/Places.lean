/-
# The places of a node

A node that is told from others by its mark has a number of places in a content list
(`Content.places`). It has none in what is copied or read, and whatever is done to a document gives it no
place more than it had:

| step | places of a marked node |
| --- | --- |
| `Content.copyAll`, `Markup.parse` | none |
| `Content.announced` | as before |
| `SlotMap.fill` | at most as before |
| `Content.putAt` | those of the rest and those of what is put there |
| `Content.markAll` | as before; one for a mark that is given out |
-/

import Mathlib.Tactic.SplitIfs
import PageComposer.Expansion.Session
import PageComposer.Proofs.Document.Substitution
import PageComposer.Proofs.Expansion.Announced
import PageComposer.Proofs.Markup.Fresh

namespace PageComposer

namespace Content

/-- The number of places at which the node with a mark stands in a content list. -/
def places (a : Nat) (items : List Content) : Nat :=
  (headsAll items).countP fun h => h.mark == some a

/-- No node has two places. -/
def Single (items : List Content) : Prop := ∀ a, places a items ≤ 1

/-- No node has a place in both. -/
def Apart (xs ys : List Content) : Prop := ∀ a, places a xs = 0 ∨ places a ys = 0

/-- Every node has a mark. -/
def Marked (items : List Content) : Prop := ∀ h ∈ headsAll items, h.mark.isSome = true

variable {a : Nat}

@[simp] theorem places_nil : places a [] = 0 := rfl

@[simp] theorem places_text (s : String) (rest : List Content) :
    places a (.text s :: rest) = places a rest := by
  simp [places]

@[simp] theorem places_node (h : Head) (cs rest : List Content) :
    places a (.node h cs :: rest) = (if h.mark = some a then 1 else 0) + places a cs + places a rest := by
  by_cases hm : h.mark = some a
  · simp [places, hm]
    omega
  · simp [places, hm]

theorem headsAll_append (xs ys : List Content) : headsAll (xs ++ ys) = headsAll xs ++ headsAll ys := by
  simp [headsAll, nodesAll_append]

@[simp] theorem places_append (xs ys : List Content) : places a (xs ++ ys) = places a xs + places a ys := by
  rw [places, headsAll_append, List.countP_append]
  rfl

/-- The places in a list are those in its first item and those in the rest. -/
theorem places_cons (item : Content) (rest : List Content) :
    places a (item :: rest) = places a [item] + places a rest := places_append [item] rest

/-- An item has no more places for a node than a list that it is in. -/
theorem places_singleton_le {item : Content} {items : List Content} (h : item ∈ items) :
    places a [item] ≤ places a items := by
  obtain ⟨front, back, rfl⟩ := List.append_of_mem h
  rw [places_append, places_cons item back]
  omega

theorem places_pos_iff {items : List Content} : 0 < places a items ↔ ∃ h ∈ headsAll items, h.mark = some a := by
  simp [places, List.countP_pos_iff]

/-- No node has a place where none has a mark. -/
theorem places_of_unmarked {items : List Content} (h : ∀ g ∈ headsAll items, g.mark = none) :
    places a items = 0 := by
  rw [places, List.countP_eq_zero]
  intro g hg
  simp [h g hg]

theorem Fresh.places {items : List Content} (h : Fresh items) : places a items = 0 :=
  places_of_unmarked fun g hg => (h g hg).2

@[simp] theorem places_copyAll (items : List Content) : places a (copyAll items) = 0 := by
  refine places_of_unmarked fun g hg => ?_
  rw [headsAll_copyAll] at hg
  obtain ⟨_, _, rfl⟩ := List.mem_map.1 hg
  rfl

@[simp] theorem mark_announced (h : Head) : h.announced.mark = h.mark := by
  unfold Head.announced
  split <;> rfl

@[simp] theorem places_announced (items : List Content) : places a (announced items) = places a items := by
  rw [places, headsAll_announced, List.countP_map]
  simp only [Function.comp_def, mark_announced]
  rfl

theorem Apart.symm {xs ys : List Content} (h : Apart xs ys) : Apart ys xs := fun a => (h a).symm

/-! ### Substitution -/

variable {bound : String → Option Filled}

/-- Where nothing that is bound has a marked node, substitution gives no node a place more. -/
theorem places_fillAll_le (hb : ∀ name f, bound name = some f → places a f.content = 0) (binding : Bool)
    (items : List Content) : places a (fillAll bound binding items).content ≤ places a items := by
  induction items using list_induction generalizing binding with
  | nil => exact Nat.le_refl _
  | text s rest ih => simpa using ih binding
  | node h cs rest ihc ih =>
    have hrest := ih binding
    by_cases hk : (binding || !h.isYield) = true
    · have hcs := ihc h.isInclude
      rw [fillAll_kept bound hk, places_node, places_node]
      omega
    · obtain ⟨rfl, hy⟩ : binding = false ∧ h.isYield = true := by simpa using hk
      have hcs : places a (standIn bound h.placeholder (fillAll bound false cs)).content ≤ places a cs := by
        unfold standIn
        split
        · rename_i f hf
          obtain ⟨name, -, hname⟩ := Option.bind_eq_some_iff.1 hf
          rw [hb name f hname]
          exact Nat.zero_le _
        · split
          · exact Nat.zero_le _
          · exact ihc false
      rw [fillAll_placeholder bound hy]
      show places a (.node h.resolved _ :: _) ≤ _
      rw [places_node, places_node, show h.resolved.mark = h.mark from rfl]
      omega

/-- **Substitution gives no node a place more**: what it inserts are copies. -/
theorem places_fill_le (slots : SlotMap) (items : List Content) :
    places a (slots.fill items).content ≤ places a items := by
  induction slots, items using SlotMap.fill.induct with
  | case1 slots items ih =>
    rw [SlotMap.fill_eq]
    refine places_fillAll_le (fun name f hf => ?_) false items
    obtain ⟨content, hc, rfl⟩ := Option.map_eq_some_iff.1 hf
    have := ih name content hc
    rw [places_copyAll] at this
    omega

/-! ### Places in a document -/

/-- A node with another content. -/
def withChildren (new : List Content) : Content → Content
  | .text s => .text s
  | .node h _ => .node h new

theorem putAt_cons_cons (items new : List Content) (i j : Nat) (rest : Place) :
    putAt items new (i :: j :: rest) =
      items.modify i fun item => withChildren (putAt item.children new (j :: rest)) item := by
  rw [putAt]
  · congr 1
    funext item
    cases item <;> rfl
  · exact List.cons_ne_nil j rest

@[simp] theorem at?_nil (p : Place) : at? [] p = none := by
  cases p with
  | nil => rfl
  | cons i rest => cases rest <;> simp [at?]

theorem focus_cons_cons (items : List Content) (i j : Nat) (rest : Place) :
    focus items (i :: j :: rest) = (items[i]?.map fun item => focus item.children (j :: rest)).getD [] := by
  cases h : items[i]? <;> simp [focus, at?, h]

theorem places_modify (items : List Content) (i : Nat) (f : Content → Content) :
    places a (items.modify i f) + (items[i]?.map fun item => places a [item]).getD 0 =
      places a items + (items[i]?.map fun item => places a [f item]).getD 0 := by
  induction items generalizing i with
  | nil => simp
  | cons item rest ih =>
    cases i with
    | zero =>
      rw [List.modify_zero_cons, places_cons, places_cons item rest]
      simp only [List.getElem?_cons_zero, Option.map_some, Option.getD_some]
      omega
    | succ i =>
      have := ih i
      rw [List.modify_succ_cons, places_cons, places_cons item rest]
      simp only [List.getElem?_cons_succ]
      omega

/-- **What is put at a place stands for what was there.** -/
theorem places_putAt_le (new : List Content) (p : Place) (items : List Content) :
    places a (putAt items new p) + places a (focus items p) ≤ places a items + places a new := by
  induction p generalizing items with
  | nil => simp [putAt, focus, Nat.add_comm]
  | cons i rest ih =>
    cases rest with
    | nil =>
      have hsplit : places a items = places a (items.take i) + places a (items.drop i) := by
        rw [← places_append, List.take_append_drop]
      have hdrop : places a (items.drop i) = places a (focus items [i]) + places a (items.drop (i + 1)) := by
        cases hi : items[i]? with
        | none =>
          have hlen : items.length ≤ i := List.getElem?_eq_none_iff.1 hi
          simp [focus, at?, hi, List.drop_eq_nil_of_le hlen, List.drop_eq_nil_of_le (Nat.le_succ_of_le hlen)]
        | some item =>
          obtain ⟨hlt, rfl⟩ := List.getElem?_eq_some_iff.1 hi
          rw [List.drop_eq_getElem_cons hlt, places_cons]
          simp [focus, at?, hi]
      rw [putAt, places_append, places_append]
      omega
    | cons j rest =>
      have hmod := places_modify (a := a) items i fun item => withChildren (putAt item.children new (j :: rest)) item
      rw [putAt_cons_cons, focus_cons_cons]
      cases hi : items[i]? with
      | none =>
        rw [hi] at hmod
        simp only [Option.map_none, Option.getD_none, places_nil] at hmod ⊢
        omega
      | some item =>
        rw [hi] at hmod
        simp only [Option.map_some, Option.getD_some] at hmod ⊢
        cases item with
        | text s =>
          simp only [withChildren, children, focus, at?_nil, Option.toList_none, places_nil] at hmod ⊢
          omega
        | node h cs =>
          have hin := ih cs
          simp only [withChildren, children, places_node, places_nil] at hmod ⊢
          omega

/-! ### Marks given out -/

@[simp] theorem markAll_nil (n : Nat) : markAll n [] = ([], n) := rfl

@[simp] theorem markAll_text (n : Nat) (s : String) (rest : List Content) :
    markAll n (.text s :: rest) = (.text s :: (markAll n rest).1, (markAll n rest).2) := rfl

/-- A node keeps its mark, and gets the next one if it has none. -/
theorem markAll_node (n : Nat) (h : Head) (cs rest : List Content) :
    let inner := markAll (if h.mark.isSome then n else n + 1) cs
    markAll n (.node h cs :: rest) =
      (.node { h with mark := some (h.mark.getD n) } inner.1 :: (markAll inner.2 rest).1,
        (markAll inner.2 rest).2) := by
  obtain ⟨tag, attrs, settled, mark⟩ := h
  cases mark <;> simp [markAll, markItem]

theorem le_markAll (n : Nat) (items : List Content) : n ≤ (markAll n items).2 := by
  induction items using list_induction generalizing n with
  | nil => exact Nat.le_refl n
  | text s rest ih => exact ih n
  | node h cs rest ihc ih =>
    have hfirst : n ≤ if h.mark.isSome then n else n + 1 := by split <;> omega
    rw [markAll_node]
    exact Nat.le_trans (Nat.le_trans hfirst (ihc _)) (ih _)

/-- **A mark that is given out has one place**, all others have the places that they had. -/
theorem places_markAll (n : Nat) (items : List Content) :
    places a (markAll n items).1 = places a items + if n ≤ a ∧ a < (markAll n items).2 then 1 else 0 := by
  induction items using list_induction generalizing n with
  | nil =>
    rw [markAll_nil, if_neg (by omega)]
    rfl
  | text s rest ih =>
    rw [markAll_text, places_text, places_text]
    exact ih n
  | node h cs rest ihc ih =>
    have hle := le_markAll (if h.mark.isSome then n else n + 1) cs
    have hle' := le_markAll (markAll (if h.mark.isSome then n else n + 1) cs).2 rest
    rw [markAll_node, places_node, places_node, ihc, ih]
    cases hm : h.mark with
    | none =>
      simp only [hm, Option.isSome_none, Bool.false_eq_true, if_false, Option.getD_none, reduceCtorEq,
        Option.some.injEq] at hle hle' ⊢
      split_ifs <;> omega
    | some m =>
      simp only [hm, Option.isSome_some, if_true, Option.getD_some] at hle hle' ⊢
      split_ifs <;> omega

/-- Then every node has a mark. -/
theorem marked_markAll (n : Nat) (items : List Content) : Marked (markAll n items).1 := by
  induction items using list_induction generalizing n with
  | nil => exact fun _ hg => by cases hg
  | text s rest ih =>
    intro g hg
    rw [markAll_text, headsAll_text] at hg
    exact ih n g hg
  | node h cs rest ihc ih =>
    intro g hg
    rw [markAll_node, headsAll_node, List.mem_cons, List.mem_append] at hg
    rcases hg with rfl | hg | hg
    · rfl
    · exact ihc _ g hg
    · exact ih _ g hg

/-- Marks are all that is new. -/
@[simp] theorem copyAll_markAll (n : Nat) (items : List Content) : copyAll (markAll n items).1 = copyAll items := by
  induction items using list_induction generalizing n with
  | nil => rfl
  | text s rest ih => simp [copyAll, copy, ih]
  | node h cs rest ihc ih => simp [markAll_node, copyAll, copy, ihc, ih]

end Content
end PageComposer
