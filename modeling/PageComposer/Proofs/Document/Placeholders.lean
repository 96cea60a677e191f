/-
# Substitution settles a document

Where no bound content holds a placeholder, substitution is told by two recursions over the document, one for
what it leaves (`Content.subst`) and one for how many placeholders it meets (`Content.met`). Nothing in what is
inserted counts, and nothing in what is dropped.

| placeholder | met in place of it |
| --- | --- |
| bound | itself |
| unbound, optional | itself |
| unbound | itself and those in its own content |

Substitution leaves no placeholder, so another one, by whatever slots, finds nothing to do
(`SlotMap.fill_settles`).
-/

import PageComposer.Proofs.Document.Substitution

namespace PageComposer

namespace Content

mutual

/-- The number of placeholders that substitution meets in an item; `binding` tells whether it is a direct
child of an include. -/
def metItem (slots : SlotMap) (binding : Bool) : Content → Nat
  | .text _ => 0
  | .node h cs =>
    if binding || !h.isYield then met slots h.isInclude cs
    else if (h.placeholder.name.bind slots.get?).isSome || h.placeholder.isOptional then 1
    else met slots false cs + 1

/-- The number of placeholders that substitution meets in a content list. -/
def met (slots : SlotMap) (binding : Bool) : List Content → Nat
  | [] => 0
  | item :: rest => metItem slots binding item + met slots binding rest

end

/-- What a slot without placeholders inserts: a copy of its content, in which nothing is met. -/
def inserted (slots : SlotMap) (name : String) : Option Filled :=
  (slots.get? name).map fun content => ⟨copyAll content, []⟩

/-- What stands for a placeholder adds what is met in its own content, where that is kept. -/
theorem length_resolved_standIn (slots : SlotMap) (p : Placeholder) (own : Filled) :
    (standIn (inserted slots) p own).resolved.length =
      if (p.name.bind slots.get?).isSome || p.isOptional then 0 else own.resolved.length := by
  unfold standIn inserted
  cases p.name with
  | none => by_cases ho : p.isOptional = true <;> simp [ho]
  | some name =>
    cases hc : slots.get? name with
    | none => by_cases ho : p.isOptional = true <;> simp [hc, ho]
    | some content => simp [hc]

/-- One name is noted for each placeholder that is met. -/
theorem length_resolved_fillAll (slots : SlotMap) (binding : Bool) (items : List Content) :
    (fillAll (inserted slots) binding items).resolved.length = met slots binding items := by
  induction items using list_induction generalizing binding with
  | nil => rfl
  | text s rest ih => simp [met, metItem, ih]
  | node h cs rest ihc ih =>
    by_cases hk : (binding || !h.isYield) = true
    · rw [fillAll_kept _ hk, List.length_append, ihc, ih, met, metItem, if_pos hk]
    · obtain ⟨rfl, hy⟩ : binding = false ∧ h.isYield = true := by simpa using hk
      rw [fillAll_placeholder _ hy, met, metItem, if_neg hk, ← ih, ← ihc]
      simp only [List.length_append, List.length_cons, length_resolved_standIn]
      split <;> omega

end Content

namespace SlotMap

variable {slots : SlotMap}

/-- What substitution leaves is left by every other substitution. -/
theorem fill_fill (slots' : SlotMap) (items : List Content) :
    slots'.fill (slots.fill items).content = ⟨(slots.fill items).content, []⟩ := by
  rw [fill_eq slots']
  exact Content.fillAll_of_closed _ (closed_fill slots items)

/-- **Substitution settles a document.** By slots without placeholders it is a plain recursion, meets the
placeholders that are not in dropped content, leaves none, and once done it is done for all slots. -/
theorem fill_settles (hs : slots.Closed) (items : List Content) :
    (slots.fill items).content = Content.subst slots false items ∧
      (slots.fill items).resolved.length = Content.met slots false items ∧
      Content.closed false (slots.fill items).content = true ∧
      ∀ slots' : SlotMap, slots'.fill (slots.fill items).content = ⟨(slots.fill items).content, []⟩ := by
  refine ⟨fill_eq_subst hs items, ?_, closed_fill slots items, fun slots' => fill_fill slots' items⟩
  rw [fill_of_closed hs]
  exact Content.length_resolved_fillAll slots false items

/-- An element without a mark. -/
def element (tag : String) (attrs : List (String × String)) (cs : List Content) : Content :=
  .node { tag := some tag, attrs := attrs.map fun a => (a.1, .text a.2) } cs

/-- A fragment that hands a slot on to another fragment, and has placeholders in the text of its own
placeholders. -/
def layout : List Content :=
  [element "include" [("src", "menu")]
      [element "yield" [("name", "top")] [element "yield" [("name", "top")] []], .text "-"],
    element "yield" [("name", "side")] [.text "see ", element "yield" [("name", "top")] [.text "none"]],
    element "yield" [("name", "foot"), ("optional", "")] [element "yield" [("name", "top")] []],
    element "yield" [("name", "top")] [element "yield" [("name", "side")] []]]

/-- An include with a binding of its own. -/
def logo : List Content :=
  [element "include" [("src", "logo")] [element "yield" [("name", "top")] [.text "L"]]]

/-- What substitution makes of the fragment, `logo` bound to `top`. -/
def filledLayout : List Content :=
  [element "include" [("src", "menu")]
      [element "yield" [("name", "top")] [.node { tag := none, settled := true } logo], .text "-"],
    .node { tag := none, settled := true } [.text "see ", .node { tag := none, settled := true } logo],
    .node { tag := none, settled := true } [],
    .node { tag := none, settled := true } logo]

/-- The binding stays and is substituted inside; what is inserted stays as it is; five of the seven placeholders are
met. -/
theorem fill_settles_layout :
    SlotMap.Closed [("top", logo)] ∧
      (SlotMap.fill [("top", logo)] layout).content = filledLayout ∧
      (SlotMap.fill [("top", logo)] layout).resolved.length = 5 ∧
      ∀ slots : SlotMap, slots.fill filledLayout = ⟨filledLayout, []⟩ := by
  have hs : SlotMap.Closed [("top", logo)] := by
    intro s hs
    obtain rfl := List.mem_singleton.1 hs
    decide
  obtain ⟨hsubst, hmet, -, hagain⟩ := fill_settles hs layout
  have hcontent := hsubst.trans (by decide : _ = filledLayout)
  rw [hcontent] at hagain
  exact ⟨hs, hcontent, hmet.trans (by decide), hagain⟩

end SlotMap
end PageComposer
