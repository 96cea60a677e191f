/-
# The heads of a document

What is said of all nodes of a document is said of their heads. A content list is empty, or begins with
a text, or begins with a node that has a content list of its own; statements about documents follow these
three cases (`Content.list_induction`).

| list | its heads |
| --- | --- |
| empty | none |
| text, rest | those of the rest |
| node, rest | that of the node, those of its content, those of the rest |
-/

import PageComposer.Document.Content

namespace PageComposer

namespace Head

theorem isInclude_of_isYield {h : Head} (hy : h.isYield = true) : h.isInclude = false := by
  simp only [isYield, beq_iff_eq] at hy
  simp [isInclude, hy]

theorem isYield_of_isInclude {h : Head} (hi : h.isInclude = true) : h.isYield = false := by
  simp only [isInclude, beq_iff_eq] at hi
  simp [isYield, hi]

@[simp] theorem isYield_resolved (h : Head) : h.resolved.isYield = false := rfl

@[simp] theorem isYield_settle (h : Head) : h.settle.isYield = h.isYield := rfl

@[simp] theorem isInclude_settle (h : Head) : h.settle.isInclude = h.isInclude := rfl

end Head

namespace Content

/-- **Induction on a document.**  The case of a node has the statement for its content and for what
follows it. -/
@[elab_as_elim] theorem list_induction {motive : List Content → Prop} (nil : motive [])
    (text : ∀ s rest, motive rest → motive (.text s :: rest))
    (node : ∀ h cs rest, motive cs → motive rest → motive (.node h cs :: rest)) :
    ∀ items, motive items
  | [] => nil
  | .text s :: rest => text s rest (list_induction nil text node rest)
  | .node h cs :: rest =>
    node h cs rest (list_induction nil text node cs) (list_induction nil text node rest)

@[simp] theorem headsAll_nil : headsAll [] = [] := rfl

@[simp] theorem headsAll_text (s : String) (rest : List Content) :
    headsAll (.text s :: rest) = headsAll rest := by
  simp [headsAll, nodesAll, nodes]

@[simp] theorem headsAll_node (h : Head) (cs rest : List Content) :
    headsAll (.node h cs :: rest) = h :: (headsAll cs ++ headsAll rest) := by
  simp [headsAll, nodesAll, nodes, head?]

/-- The heads of a list are those of its first item and those of the rest. -/
theorem headsAll_cons (item : Content) (rest : List Content) :
    headsAll (item :: rest) = headsAll [item] ++ headsAll rest := by
  cases item <;> simp

/-- What holds of the heads of a list holds of those of its first item and of those of the rest. -/
theorem forall_headsAll_cons {p : Head → Prop} {item : Content} {rest : List Content} :
    (∀ h ∈ headsAll (item :: rest), p h) ↔ (∀ h ∈ headsAll [item], p h) ∧ ∀ h ∈ headsAll rest, p h := by
  rw [headsAll_cons, List.forall_mem_append]

/-- What holds of the heads of a node holds of those below it. -/
theorem forall_headsAll_below {p : Head → Prop} {h : Head} {cs : List Content}
    (hp : ∀ g ∈ headsAll [.node h cs], p g) : ∀ g ∈ headsAll cs, p g := fun g hg => hp g (by simp [hg])

/-- A copy has the heads of its original without their marks. -/
theorem headsAll_copyAll (items : List Content) :
    headsAll (copyAll items) = (headsAll items).map fun h => { h with mark := none } := by
  induction items using list_induction with
  | nil => rfl
  | text s rest ih => simpa [copyAll, copy] using ih
  | node h cs rest ihc ih => simp [copyAll, copy, ihc, ih]

/-- The heads in the content of a node of a list are among those of the list. -/
theorem mem_headsAll_of_mem {h g : Head} {cs items : List Content} (hn : .node h cs ∈ items)
    (hg : g ∈ headsAll cs) : g ∈ headsAll items := by
  induction items with
  | nil => cases hn
  | cons item rest ih =>
    rcases List.mem_cons.1 hn with rfl | hrest
    · simp [hg]
    · cases item with
      | text s => simpa using ih hrest
      | node h' cs' => simp [ih hrest]

end Content
end PageComposer
