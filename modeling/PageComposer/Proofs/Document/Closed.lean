/-
# Documents without placeholders

A yield is a placeholder unless it stands directly below an include, whose slots it binds. A document
is closed if it holds no placeholder. How far placeholders may reach is told in three degrees:

| predicate | placeholders |
| --- | --- |
| `closed` | nowhere |
| `closedBelow` | not below an include, at any depth |
| `bindingsClosed` | not in what an include binds to a name |

Each follows from the one before. Below an include every yield child counts as a binding, so `closed`
takes a flag that tells whether a content list is that of an include.
-/

import PageComposer.Document.Slots
import PageComposer.Proofs.Document.Heads

namespace PageComposer
namespace Content

mutual

/-- Whether an item holds no placeholder; `binding` tells whether it is a direct child of an
include. -/
def closedItem (binding : Bool) : Content → Bool
  | .text _ => true
  | .node h cs => (binding || !h.isYield) && closed h.isInclude cs

/-- Whether a content list holds no placeholder. -/
def closed (binding : Bool) : List Content → Bool
  | [] => true
  | item :: rest => closedItem binding item && closed binding rest

end

mutual

/-- Whether no placeholder of an item lies below an include. -/
def closedBelowItem : Content → Bool
  | .text _ => true
  | .node h cs => if h.isInclude then closed true cs else closedBelow cs

/-- Whether no placeholder of a content list lies below an include. -/
def closedBelow : List Content → Bool
  | [] => true
  | item :: rest => closedBelowItem item && closedBelow rest

end

/-- Whether no content that children of an include bind to a name holds a placeholder. -/
def bindsClosed (children : List Content) : Bool :=
  (children.filterMap SlotMap.binding?).all fun b => closed false b.2

mutual

/-- Whether no include of an item binds a placeholder to a name. -/
def bindingsClosedItem : Content → Bool
  | .text _ => true
  | .node h cs => (!h.isInclude || bindsClosed cs) && bindingsClosed cs

/-- Whether no include of a content list binds a placeholder to a name. -/
def bindingsClosed : List Content → Bool
  | [] => true
  | item :: rest => bindingsClosedItem item && bindingsClosed rest

end

@[simp] theorem closed_nil (binding : Bool) : closed binding [] = true := rfl

@[simp] theorem closed_text (binding : Bool) (s : String) (rest : List Content) :
    closed binding (.text s :: rest) = closed binding rest := by
  simp [closed, closedItem]

@[simp] theorem closed_node (binding : Bool) (h : Head) (cs rest : List Content) :
    closed binding (.node h cs :: rest) =
      ((binding || !h.isYield) && closed h.isInclude cs && closed binding rest) := rfl

@[simp] theorem closedBelow_nil : closedBelow [] = true := rfl

@[simp] theorem closedBelow_text (s : String) (rest : List Content) :
    closedBelow (.text s :: rest) = closedBelow rest := by
  simp [closedBelow, closedBelowItem]

@[simp] theorem closedBelow_node (h : Head) (cs rest : List Content) :
    closedBelow (.node h cs :: rest) =
      ((if h.isInclude then closed true cs else closedBelow cs) && closedBelow rest) := rfl

@[simp] theorem bindingsClosed_nil : bindingsClosed [] = true := rfl

@[simp] theorem bindingsClosed_text (s : String) (rest : List Content) :
    bindingsClosed (.text s :: rest) = bindingsClosed rest := by
  simp [bindingsClosed, bindingsClosedItem]

@[simp] theorem bindingsClosed_node (h : Head) (cs rest : List Content) :
    bindingsClosed (.node h cs :: rest) =
      ((!h.isInclude || bindsClosed cs) && bindingsClosed cs && bindingsClosed rest) := rfl

/-- The content of a node of a closed list is closed. -/
theorem closed_of_mem {binding : Bool} {h : Head} {cs items : List Content}
    (hc : closed binding items = true) (hn : .node h cs ∈ items) :
    closed h.isInclude cs = true := by
  induction items with
  | nil => cases hn
  | cons item rest ih =>
    rcases List.mem_cons.1 hn with rfl | hrest
    · simp only [closed_node, Bool.and_eq_true] at hc
      exact hc.1.2
    · simp only [closed, Bool.and_eq_true] at hc
      exact ih hc.2 hrest

/-- A binding is a yield among the children. -/
theorem mem_of_binding? {b : String × List Content} {children : List Content}
    (hb : b ∈ children.filterMap SlotMap.binding?) :
    ∃ h : Head, h.isYield = true ∧ .node h b.2 ∈ children := by
  obtain ⟨item, hmem, hitem⟩ := List.mem_filterMap.1 hb
  cases item with
  | text s => simp [SlotMap.binding?] at hitem
  | node h cs =>
    simp only [SlotMap.binding?] at hitem
    split at hitem
    · rename_i hy
      obtain ⟨n, _, rfl⟩ := Option.map_eq_some_iff.1 hitem
      exact ⟨h, hy, hmem⟩
    · cases hitem

/-- What closed children bind is closed. -/
theorem bindsClosed_of_closed {binding : Bool} {children : List Content}
    (hc : closed binding children = true) : bindsClosed children = true := by
  refine List.all_eq_true.2 fun b hb => ?_
  obtain ⟨h, hy, hmem⟩ := mem_of_binding? hb
  have := closed_of_mem hc hmem
  rwa [Head.isInclude_of_isYield hy] at this

theorem bindingsClosed_of_closed {binding : Bool} {items : List Content}
    (hc : closed binding items = true) : bindingsClosed items = true := by
  induction items using list_induction generalizing binding with
  | nil => rfl
  | text s rest ih => simpa using ih (by simpa using hc)
  | node h cs rest ihc ih =>
    simp only [closed_node, Bool.and_eq_true] at hc
    simp [bindsClosed_of_closed hc.1.2, ihc hc.1.2, ih hc.2]

theorem closedBelow_of_closed {binding : Bool} {items : List Content}
    (hc : closed binding items = true) : closedBelow items = true := by
  induction items using list_induction generalizing binding with
  | nil => rfl
  | text s rest ih => simpa using ih (by simpa using hc)
  | node h cs rest ihc ih =>
    simp only [closed_node, Bool.and_eq_true] at hc
    simp only [closedBelow_node, Bool.and_eq_true]
    refine ⟨?_, ih hc.2⟩
    split
    · rename_i hi; simpa [hi] using hc.1.2
    · exact ihc hc.1.2

/-- Marks do not matter for placeholders. -/
@[simp] theorem closed_copyAll (binding : Bool) (items : List Content) :
    closed binding (copyAll items) = closed binding items := by
  induction items using list_induction generalizing binding with
  | nil => rfl
  | text s rest ih => simpa [copyAll, copy] using ih binding
  | node h cs rest ihc ih =>
    simp only [copyAll, copy, closed_node, ih]
    exact congrArg (fun b => (binding || !h.isYield) && b && closed binding rest) (ihc h.isInclude)

end Content

/-- No content of a slot holds a placeholder. -/
def SlotMap.Closed (slots : SlotMap) : Prop := ∀ s ∈ slots, Content.closed false s.2 = true

end PageComposer
