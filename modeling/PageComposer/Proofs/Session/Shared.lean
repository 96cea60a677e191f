/-
# Substitution where slots share nodes

A session hands the nodes of its documents to slots, so substitution in a document can change what the slots
hold while it goes on (`SlotMap.fillShared`). It gives no node a place more all the same
(`SlotMap.places_fillShared_le`), and where the slots have no node in common with the document it is plain
substitution and leaves the slots alone (`SlotMap.fillShared_of_apart`).
-/

import PageComposer.Proofs.Document.Places

namespace PageComposer
namespace SlotMap

/-- The content of all slots. -/
def contents (slots : SlotMap) : List Content := slots.flatMap (·.2)

/-- What a slot inserts: a copy of its content, in which the other slots have been substituted. -/
def insertion (slots : SlotMap) (name : String) : Option Filled :=
  (slots.get? name).map fun content => (slots.erase name).fill (Content.copyAll content)

variable {a : Nat}

theorem fill_eq_insertion (slots : SlotMap) (items : List Content) :
    slots.fill items = Content.fillAll slots.insertion false items := fill_eq slots items

/-- No marked node is inserted. -/
theorem places_insertion {slots : SlotMap} {name : String} {f : Filled} (h : slots.insertion name = some f) :
    Content.places a f.content = 0 := by
  obtain ⟨content, -, rfl⟩ := Option.map_eq_some_iff.1 h
  have := Content.places_fill_le (a := a) (slots.erase name) (Content.copyAll content)
  rw [Content.places_copyAll] at this
  omega

theorem places_contents_of_mem {slots : SlotMap} {s : String × List Content} (hs : s ∈ slots) :
    Content.places a s.2 ≤ Content.places a slots.contents := by
  induction slots with
  | nil => cases hs
  | cons t rest ih =>
    rw [contents, List.flatMap_cons, Content.places_append]
    rcases List.mem_cons.1 hs with rfl | hs
    · omega
    · have := ih hs
      rw [contents] at this
      omega

/-! ### One item -/

variable (slots : SlotMap)

theorem fillShared_cons (binding : Bool) (item : Content) (rest : List Content) :
    fillShared slots binding (item :: rest) =
      let first := fillSharedItem slots binding item
      let r := fillShared first.2.2 binding rest
      (first.1 :: r.1, first.2.1 + r.2.1, r.2.2) := by
  rw [fillShared]

theorem fillSharedItem_text (binding : Bool) (s : String) :
    fillSharedItem slots binding (.text s) = (.text s, 0, slots) := by
  rw [fillSharedItem]

/-- The slots after a node, which they share if it has a mark. -/
def after (slots : SlotMap) (h : Head) (item : Content) : SlotMap :=
  match h.mark with
  | none => slots
  | some mark => slots.refresh [(mark, item)]

/-- A node that is no placeholder stays. -/
theorem fillSharedItem_kept {binding : Bool} {h : Head} (hk : (binding || !h.isYield) = true) (cs : List Content) :
    fillSharedItem slots binding (.node h cs) =
      let f := fillShared slots h.isInclude cs
      (.node h f.1, f.2.1, f.2.2.after h (.node h f.1)) := by
  have hp : (if binding then none else h.placeholder?) = none := by
    cases binding with
    | true => rfl
    | false => simp_all [Head.placeholder?]
  rw [fillSharedItem, hp]
  unfold after
  cases h.mark <;> rfl

/-- The slots behind a placeholder: `left` where its own content stands for it. -/
def behind (slots left : SlotMap) (p : Placeholder) : SlotMap :=
  if (p.name.bind slots.get?).isSome || p.isOptional then slots else left

/-- A placeholder becomes a transparent node with what stands for it. -/
theorem fillSharedItem_placeholder {h : Head} (hy : h.isYield = true) (cs : List Content) :
    let f := fillShared slots false cs
    let item := .node h.resolved (Content.standIn slots.insertion h.placeholder ⟨f.1, []⟩).content
    (fillSharedItem slots false (.node h cs)).1 = item ∧
      (fillSharedItem slots false (.node h cs)).2.2 = (slots.behind f.2.2 h.placeholder).after h item := by
  have hp : (if false = true then none else h.placeholder?) = some h.placeholder := Head.placeholder?_of_isYield hy
  rw [fillSharedItem, hp]
  unfold Content.standIn behind insertion after
  dsimp only
  cases h.placeholder.name with
  | none => cases h.mark <;> cases h.placeholder.isOptional <;> exact ⟨rfl, rfl⟩
  | some name =>
    cases hget : slots.get? name with
    | none =>
      simp only [Option.bind_some, hget, Option.map_none]
      cases h.mark <;> cases h.placeholder.isOptional <;> exact ⟨rfl, rfl⟩
    | some content =>
      simp only [Option.bind_some, hget, Option.map_some]
      cases h.mark <;> exact ⟨rfl, rfl⟩

/-! ### Places -/

/-- **Substitution gives no node a place more**, whatever the slots share. -/
theorem places_fillShared_le (binding : Bool) (items : List Content) :
    Content.places a (fillShared slots binding items).1 ≤ Content.places a items := by
  induction items using Content.list_induction generalizing slots binding with
  | nil => exact Nat.le_refl _
  | text s rest ih =>
    have hrest := ih slots binding
    rw [fillShared_cons, fillSharedItem_text]
    simpa using hrest
  | node h cs rest ihc ih =>
    have hrest := ih (fillSharedItem slots binding (.node h cs)).2.2 binding
    rw [fillShared_cons]
    show Content.places a ((fillSharedItem slots binding (.node h cs)).1 :: _) ≤ _
    by_cases hk : (binding || !h.isYield) = true
    · have hcs := ihc slots h.isInclude
      rw [fillSharedItem_kept slots hk] at hrest ⊢
      rw [Content.places_node, Content.places_node]
      omega
    · obtain ⟨rfl, hy⟩ : binding = false ∧ h.isYield = true := by simpa using hk
      have hcs := ihc slots false
      have hstand : Content.places a (Content.standIn slots.insertion h.placeholder
          ⟨(fillShared slots false cs).1, []⟩).content ≤ Content.places a cs := by
        unfold Content.standIn
        split
        · rename_i f hf
          obtain ⟨name, -, hname⟩ := Option.bind_eq_some_iff.1 hf
          have := places_insertion (a := a) hname
          omega
        · split
          · exact Nat.zero_le _
          · exact hcs
      rw [(fillSharedItem_placeholder slots hy cs).1, Content.places_node, Content.places_node,
        show h.resolved.mark = h.mark from rfl]
      omega

/-! ### Slots that share nothing -/

variable {slots}

/-- Slots that have none of the marked nodes stay. -/
theorem refresh_of_places {marked : List (Nat × Content)}
    (h : ∀ m, 0 < Content.places m slots.contents → marked.lookup m = none) : slots.refresh marked = slots := by
  have hkeep : ∀ s ∈ slots, ∀ item ∈ s.2, (item.mark?.bind fun m => marked.lookup m).getD item = item := by
    intro s hs item hitem
    cases hm : item.mark? with
    | none => rfl
    | some m =>
      have hpos : 0 < Content.places m [item] := by
        cases item with
        | text t => cases hm
        | node g ds =>
          rw [Content.places_node, if_pos (show g.mark = some m from hm)]
          omega
      have hle := Nat.le_trans (Content.places_singleton_le (a := m) hitem) (places_contents_of_mem hs)
      rw [Option.bind_some, h m (by omega)]
      rfl
  unfold refresh
  refine (List.map_congr_left fun s hs => ?_).trans (List.map_id slots)
  rw [(List.map_congr_left fun item hitem => hkeep s hs item hitem).trans (List.map_id' s.2)]
  rfl

/-- Slots take nothing over from a node that they do not have. -/
theorem after_of_apart {h : Head} {cs rest : List Content} (hs : Content.Apart slots.contents (.node h cs :: rest))
    (item : Content) : slots.after h item = slots := by
  unfold after
  cases hm : h.mark with
  | none => rfl
  | some m =>
    refine refresh_of_places fun m' hm' => ?_
    have hne : (m' == m) = false := by
      rw [beq_eq_false_iff_ne]
      rintro rfl
      have := hs m'
      rw [Content.places_node, if_pos hm] at this
      omega
    rw [List.lookup_cons, hne]
    rfl

/-- **Where nothing is shared, substitution is plain and leaves the slots alone.** -/
theorem fillShared_of_apart {items : List Content} (hs : Content.Apart slots.contents items) (binding : Bool) :
    (fillShared slots binding items).1 = (Content.fillAll slots.insertion binding items).content ∧
      (fillShared slots binding items).2.2 = slots := by
  induction items using Content.list_induction generalizing binding with
  | nil => exact ⟨rfl, rfl⟩
  | text s rest ih =>
    have hrest := ih (fun a => by simpa using hs a) binding
    rw [fillShared_cons, fillSharedItem_text, Content.fillAll_text]
    exact ⟨congrArg _ hrest.1, hrest.2⟩
  | node h cs rest ihc ih =>
    have hsplit : ∀ a, Content.places a slots.contents = 0 ∨
        Content.places a cs = 0 ∧ Content.places a rest = 0 := by
      intro a
      have := hs a
      rw [Content.places_node] at this
      omega
    have hcs := ihc fun a => (hsplit a).imp id And.left
    have hrest := ih (fun a => (hsplit a).imp id And.right) binding
    have hafter := after_of_apart hs
    rw [fillShared_cons]
    by_cases hk : (binding || !h.isYield) = true
    · rw [fillSharedItem_kept slots hk, Content.fillAll_kept _ hk]
      dsimp only
      rw [(hcs h.isInclude).1, (hcs h.isInclude).2, hafter, hrest.1, hrest.2]
      exact ⟨rfl, rfl⟩
    · obtain ⟨rfl, hy⟩ : binding = false ∧ h.isYield = true := by simpa using hk
      obtain ⟨hitem, hslots⟩ := fillSharedItem_placeholder slots hy cs
      have hbehind : slots.behind (fillShared slots false cs).2.2 h.placeholder = slots := by
        rw [(hcs false).2]
        unfold behind
        split <;> rfl
      have hstand : ∀ own : Filled, (Content.standIn slots.insertion h.placeholder ⟨own.content, []⟩).content =
          (Content.standIn slots.insertion h.placeholder own).content := by
        intro own
        unfold Content.standIn
        split
        · rfl
        · split <;> rfl
      rw [Content.fillAll_placeholder _ hy]
      dsimp only
      rw [hitem, hslots, hbehind, hafter, hrest.1, hrest.2, (hcs false).1, hstand]
      exact ⟨rfl, rfl⟩

end SlotMap
end PageComposer
