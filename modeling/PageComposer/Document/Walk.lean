/-
# Walks that change what they walk over

A walk meets the nodes of a document in document order. At each node a visitor may replace the
content of that node; the walk then goes on in the new content. What a visitor supplies it pays for
out of a budget, so every walk ends.

| visitor | at a node |
| --- | --- |
| `Visitor.replacing` | takes the first spare content for the tag of the node, and notes the tag |
-/

import PageComposer.Document.Content

namespace PageComposer

open Content (sizeAll)

/-- What to do at each node, given its head and its content: the content that the walk goes on
with. -/
structure Visitor (σ : Type) where
  /-- The act at a node. -/
  visit : σ → Head → List Content → σ × List Content
  /-- What the visitor can still supply. -/
  budget : σ → Nat
  /-- New content is paid for. -/
  pays : ∀ s h cs,
    budget (visit s h cs).1 + sizeAll (visit s h cs).2 ≤ budget s + sizeAll cs

namespace Visitor

variable {σ : Type}

/-- The state after a walk and the items as it leaves them, with what bounds their size. -/
def walkBounded (v : Visitor σ) (s : σ) (items : List Content) :
    { r : σ × List Content // v.budget r.1 + sizeAll r.2 ≤ v.budget s + sizeAll items } :=
  match items with
  | [] => ⟨(s, []), Nat.le_refl _⟩
  | .text t :: rest =>
    match walkBounded v s rest with
    | ⟨(s', rest'), le⟩ => ⟨(s', .text t :: rest'), by
        simp only [sizeAll, Content.size] at le ⊢; omega⟩
  | .node h cs :: rest =>
    have paid := v.pays s h cs
    match walkBounded v (v.visit s h cs).1 (v.visit s h cs).2 with
    | ⟨(s', cs'), le⟩ =>
      match walkBounded v s' rest with
      | ⟨(s'', rest'), le'⟩ => ⟨(s'', .node h cs' :: rest'), by
          simp only [sizeAll, Content.size] at le le' ⊢; omega⟩
termination_by v.budget s + sizeAll items
decreasing_by
  · simp only [sizeAll, Content.size]; omega
  · simp only [sizeAll, Content.size]; omega
  · simp only [sizeAll, Content.size] at le ⊢; omega

/-- A walk: the state after it, and the items as it leaves them. -/
def walk (v : Visitor σ) (s : σ) (items : List Content) : σ × List Content :=
  (v.walkBounded s items).1

@[simp] theorem walk_nil (v : Visitor σ) (s : σ) : v.walk s [] = (s, []) := by
  simp [walk, walkBounded]

@[simp] theorem walk_text (v : Visitor σ) (s : σ) (t : String) (rest : List Content) :
    v.walk s (.text t :: rest) = ((v.walk s rest).1, .text t :: (v.walk s rest).2) := by
  simp [walk, walkBounded]

/-- The walk acts at a node, goes through the content it then has, and goes on behind it. -/
theorem walk_node (v : Visitor σ) (s : σ) (h : Head) (cs rest : List Content) :
    v.walk s (.node h cs :: rest) =
      let here := v.visit s h cs
      let inner := v.walk here.1 here.2
      let after := v.walk inner.1 rest
      (after.1, .node h inner.2 :: after.2) := by
  simp only [walk]
  rw [walkBounded]

/-- Content to put below nodes, by their tags, and the tags met so far, the last one first. -/
structure Supply where
  met : List (Option String) := []
  spare : List (Option String × List Content)
  deriving Repr, Inhabited

/-- How much content is spare. -/
def spareSize : List (Option String × List Content) → Nat
  | [] => 0
  | e :: rest => sizeAll e.2 + spareSize rest

/-- How much content is left. -/
def Supply.left (s : Supply) : Nat := spareSize s.spare

/-- The first spare content for a tag, and what is left without it. -/
def takeSpare (tag : Option String) :
    List (Option String × List Content) →
      Option (List Content × List (Option String × List Content))
  | [] => none
  | e :: rest =>
    if e.1 == tag then some (e.2, rest)
    else (takeSpare tag rest).map fun r => (r.1, e :: r.2)

theorem spareSize_takeSpare {tag : Option String} {spare : List (Option String × List Content)}
    {r : List Content × List (Option String × List Content)} (h : takeSpare tag spare = some r) :
    sizeAll r.1 + spareSize r.2 = spareSize spare := by
  induction spare generalizing r with
  | nil => simp [takeSpare] at h
  | cons e rest ih =>
    unfold takeSpare at h
    split at h
    · obtain rfl := Option.some.inj h
      rfl
    · obtain ⟨r', hr', rfl⟩ := Option.map_eq_some_iff.1 h
      have := ih hr'
      simp only [spareSize]
      omega

/-- Replaces the content of a node by the first spare content for its tag. -/
def replacing : Visitor Supply where
  visit s h cs :=
    match takeSpare h.tag s.spare with
    | some (new, spare) => (⟨h.tag :: s.met, spare⟩, new)
    | none => ({ s with met := h.tag :: s.met }, cs)
  budget := Supply.left
  pays := by
    intro s h cs
    split
    · rename_i new spare heq
      have := spareSize_takeSpare heq
      simp only [Supply.left] at this ⊢
      omega
    · simp [Supply.left]

end Visitor
end PageComposer
