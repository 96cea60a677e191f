/-
# Directives

The pending includes of a document with a valid reference are its directives. They are performed in
document order, and an attempt at one has three outcomes.

| outcome | the node becomes |
| --- | --- |
| `resolved` | a settled transparent node with the fragment |
| `failed` | a settled include |
| `aborted` | nothing else: it stays pending |

Before a directive is attempted, those in the content of its slots are performed, slot by slot. After
it, those in its other children have their turn: they are part of the document as it was found, even
where the directive has replaced them.
-/

import PageComposer.Expansion.Run
import PageComposer.Markup.Render

namespace PageComposer

/-- The reference of a pending include, none if it has no valid one. -/
def Head.directive? (h : Head) : Option String := if h.settled then none else h.source?

/-- The references of the directives in a content list, in document order. -/
def Content.directives (items : List Content) : List String :=
  (Content.headsAll items).filterMap Head.directive?

/-- What comes of a directive. -/
inductive Outcome where
  | resolved (fragment : List Content)
  | failed
  | aborted
  deriving Repr, DecidableEq, Inhabited

namespace Run

mutual

/-- Settles the pending includes of an item that have no valid reference, each with a warning. -/
def announceItem (run : Run) : Content → Content × Run
  | .text s => (.text s, run)
  | .node h cs =>
    if h.isPending && h.source?.isNone then
      let r := announce (run.warn
        s!"Skipping include with invalid src: <include{Markup.renderAttrs h.attrs}>") cs
      (.node h.settle r.1, r.2)
    else
      let r := announce run cs
      (.node h r.1, r.2)

/-- Settles the pending includes of a content list that have no valid reference, each with a
warning. -/
def announce (run : Run) : List Content → List Content × Run
  | [] => ([], run)
  | item :: rest =>
    let first := announceItem run item
    let r := announce first.2 rest
    (first.1 :: r.1, r.2)

end

end Run

namespace SlotMap

/-- Whether an item binds a name. -/
def binds (name : String) (item : Content) : Bool :=
  match binding? item with
  | some b => b.1 == name
  | none => false

/-- The children of an include with the content of each slot put where it was taken from: the last
child that binds its name. -/
def putBack (slots : SlotMap) : List Content → List Content
  | [] => []
  | .text s :: rest => .text s :: putBack slots rest
  | .node h cs :: rest =>
    match binding? (.node h cs) with
    | none => .node h cs :: putBack slots rest
    | some (name, _) =>
      if rest.any (binds name) then .node h cs :: putBack slots rest
      else .node h ((slots.get? name).getD cs) :: putBack slots rest

/-- The number of items in slots, with one for each slot. -/
def size : SlotMap → Nat
  | [] => 0
  | s :: rest => Content.sizeAll s.2 + 1 + size rest

theorem size_bind_le (slots : SlotMap) (name : String) (content : List Content) :
    (slots.bind name content).size ≤ slots.size + (Content.sizeAll content + 1) := by
  induction slots with
  | nil => simp [bind, size]
  | cons s rest ih =>
    obtain ⟨n, c⟩ := s
    simp only [bind]
    split
    · simp only [size]; omega
    · simp only [size] at ih ⊢; omega

theorem size_ofBindings_le (pairs : List (String × List Content)) :
    (ofBindings pairs).size ≤ size pairs := by
  have go : ∀ (pairs : List (String × List Content)) (slots : SlotMap),
      (pairs.foldl (fun slots p => slots.bind p.1 p.2) slots).size ≤ slots.size + size pairs := by
    intro pairs
    induction pairs with
    | nil => intro slots; simp [size]
    | cons p rest ih =>
      intro slots
      have h₁ := ih (slots.bind p.1 p.2)
      have h₂ := size_bind_le slots p.1 p.2
      simp only [List.foldl_cons, size]
      omega
  simpa [ofBindings, size] using go pairs []

/-- The slots of an include hold no more than its children. -/
theorem size_ofChildren_le (children : List Content) :
    (ofChildren children).size ≤ Content.sizeAll children := by
  refine Nat.le_trans (size_ofBindings_le _) ?_
  induction children with
  | nil => simp [size]
  | cons c rest ih =>
    cases hb : binding? c with
    | none =>
      rw [List.filterMap_cons_none hb]
      simp only [Content.sizeAll]
      omega
    | some b =>
      rw [List.filterMap_cons_some hb]
      have : Content.sizeAll b.2 + 1 ≤ Content.size c := by
        cases c with
        | text s => simp [binding?] at hb
        | node h cs =>
          simp only [binding?] at hb
          split at hb
          · obtain ⟨n, _, rfl⟩ := Option.map_eq_some_iff.1 hb
            simp [Content.size]
          · cases hb
      simp only [Content.sizeAll, size]
      omega

end SlotMap

/-- A way of attempting the directive of a reference with slots. -/
abbrev Attempt := String → SlotMap → Run → Outcome × Run

namespace Attempt

mutual

/-- Performs the directives of an item. -/
def performItem (attempt : Attempt) (run : Run) (item : Content) : Content × Run :=
  match item with
  | .text s => (.text s, run)
  | .node h cs =>
    match h.directive? with
    | none =>
      let r := perform attempt run cs
      (.node h r.1, r.2)
    | some src =>
      let s := performSlots attempt run (SlotMap.ofChildren cs)
      match attempt src s.1 s.2 with
      | (.aborted, run) => (.node h (s.1.putBack cs), run)
      | (.failed, run) =>
        let r := performOthers attempt s.1 run cs
        (.node h.settle r.1, r.2)
      | (.resolved fragment, run) =>
        let r := performOthers attempt s.1 run cs
        (.node h.resolved fragment, r.2.release r.1)
termination_by 2 * item.size
decreasing_by
  · simp only [Content.size]; omega
  · have := SlotMap.size_ofChildren_le cs
    simp only [Content.size]; omega
  · simp only [Content.size]; omega
  · simp only [Content.size]; omega

/-- Performs the directives of a content list. -/
def perform (attempt : Attempt) (run : Run) (items : List Content) : List Content × Run :=
  match items with
  | [] => ([], run)
  | item :: rest =>
    let first := performItem attempt run item
    let r := perform attempt first.2 rest
    (first.1 :: r.1, r.2)
termination_by 2 * Content.sizeAll items + 1
decreasing_by
  · simp only [Content.sizeAll]; omega
  · have := Content.size_pos item
    simp only [Content.sizeAll]; omega

/-- Performs the directives in the content of slots. -/
def performSlots (attempt : Attempt) (run : Run) (slots : SlotMap) : SlotMap × Run :=
  match slots with
  | [] => ([], run)
  | (name, content) :: rest =>
    let first := perform attempt run content
    let r := performSlots attempt first.2 rest
    ((name, first.1) :: r.1, r.2)
termination_by 2 * slots.size + 1
decreasing_by
  · simp only [SlotMap.size]; omega
  · simp only [SlotMap.size]; omega

/-- Performs the directives in the children of an include other than those that bind `slots`. -/
def performOthers (attempt : Attempt) (slots : SlotMap) (run : Run) (children : List Content) :
    List Content × Run :=
  match children with
  | [] => ([], run)
  | .text s :: rest =>
    let r := performOthers attempt slots run rest
    (.text s :: r.1, r.2)
  | .node h cs :: rest =>
    match SlotMap.binding? (.node h cs) with
    | none =>
      let first := performItem attempt run (.node h cs)
      let r := performOthers attempt slots first.2 rest
      (first.1 :: r.1, r.2)
    | some (name, _) =>
      if rest.any (SlotMap.binds name) then
        let first := performItem attempt run (.node h cs)
        let r := performOthers attempt slots first.2 rest
        (first.1 :: r.1, r.2)
      else
        let r := performOthers attempt slots (run.skip (Content.directives cs)) rest
        (.node h ((slots.get? name).getD cs) :: r.1, r.2)
termination_by 2 * Content.sizeAll children + 1
decreasing_by
  all_goals simp only [Content.sizeAll, Content.size]; omega

end

end Attempt
end PageComposer
