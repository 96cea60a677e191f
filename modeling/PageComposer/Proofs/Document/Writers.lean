/-
# Two ways to write a document

A document is written as markup (`Markup.render`), and as text for the inside of an attribute
(`Content.flatten`).

| item | as markup | inside an attribute |
| --- | --- | --- |
| void element without content | start tag | start tag and end tag |
| value with `&`, `<`, `>` or a quote in it | escaped | as it is |
| empty value | `name=""` | `name` |
| switched-off attribute | nothing | with its value |

Where none of this is in a document, both write the same (`Content.flatten_eq_render`).  A transparent node leaves no
trace in either: its children stand for it (`Content.Dissolves`).  But the only child of a void element counts as its
content even if it is written as nothing, so a transparent node directly in a void element is not dissolved.
-/

import Mathlib.Logic.Relation
import PageComposer.Document.Flatten
import PageComposer.Markup.Render
import PageComposer.Proofs.Document.Heads

namespace PageComposer

namespace Markup

/-- The characters that are escaped in an attribute value. -/
def escapedInValues : List Char := ['&', '<', '>', '"', '\'']

theorem quotedChar_of_not_mem {c : Char} (h : c ∉ escapedInValues) : quotedChar c = [c] := by
  unfold quotedChar
  split <;> simp_all [escapedInValues]

/-- A value without such characters is written as it is. -/
theorem quotedValue_eq_self {s : String} (h : ∀ c ∈ s.toList, c ∉ escapedInValues) : quotedValue s = s := by
  have hchars : s.toList.flatMap quotedChar = s.toList.flatMap fun c => [c] :=
    congrArg List.flatten (List.map_congr_left fun c hc => quotedChar_of_not_mem (h c hc))
  rw [quotedValue, hchars, List.flatMap_singleton', String.ofList_toList]

end Markup

/-- A value that both ways write alike: a bare presence, or a text that is not empty and has no character that is
escaped. -/
def AttrValue.IsPlain : AttrValue → Prop
  | .flag on => on = true
  | .text s => s ≠ "" ∧ ∀ c ∈ s.toList, c ∉ Markup.escapedInValues
  | .absent => False

namespace Content

open Markup (render renderItem renderAttr startTagText voidWhenWritten escapedInValues)
open Relation (ReflTransGen)

/-! ### Documents that both ways write alike -/

/-- An element that both ways write alike, if they do so with its content. -/
structure WrittenOut (tag : String) (attrs : Attrs) (cs : List Content) : Prop where
  ended : tag ∈ voidWhenWritten → cs ≠ []
  values : ∀ a ∈ attrs, a.2.IsPlain

/-- All elements of a document are such. -/
def AllWrittenOut (items : List Content) : Prop :=
  ∀ h cs tag, .node h cs ∈ nodesAll items → h.tag = some tag → WrittenOut tag h.attrs cs

@[simp] theorem allWrittenOut_nil : AllWrittenOut [] := by simp [AllWrittenOut, nodesAll]

@[simp] theorem allWrittenOut_text {s : String} {rest : List Content} :
    AllWrittenOut (.text s :: rest) ↔ AllWrittenOut rest := by
  simp [AllWrittenOut, nodesAll, nodes]

@[simp] theorem allWrittenOut_node {h : Head} {cs rest : List Content} :
    AllWrittenOut (.node h cs :: rest) ↔
      (∀ tag, h.tag = some tag → WrittenOut tag h.attrs cs) ∧ AllWrittenOut cs ∧ AllWrittenOut rest := by
  simp only [AllWrittenOut, nodesAll, nodes, List.cons_append, List.mem_cons, List.mem_append]
  constructor
  · intro hall
    exact ⟨fun tag => hall h cs tag (.inl rfl), fun g ds tag hg => hall g ds tag (.inr (.inl hg)),
      fun g ds tag hg => hall g ds tag (.inr (.inr hg))⟩
  · rintro ⟨hhere, hcs, hrest⟩ g ds tag (hg | hg | hg)
    · obtain ⟨rfl, rfl⟩ := Content.node.inj hg
      exact hhere tag
    · exact hcs g ds tag hg
    · exact hrest g ds tag hg

theorem flatAttr_eq_renderAttr {a : String × AttrValue} (h : a.2.IsPlain) : flatAttr a = renderAttr a := by
  obtain ⟨name, v⟩ := a
  cases v with
  | text s => rw [flatAttr, renderAttr, Markup.quotedValue_eq_self h.2, String.isEmpty_eq_false_iff.2 h.1]; rfl
  | flag on => obtain rfl : on = true := h; rfl
  | absent => cases h

/-- An element that is no void one without content has an end tag. -/
theorem renderItem_element {h : Head} {tag : String} (ht : h.tag = some tag) {cs : List Content}
    (hv : tag ∈ voidWhenWritten → cs ≠ []) :
    renderItem (.node h cs) = startTagText tag h.attrs ++ render cs ++ "</" ++ tag ++ ">" := by
  have hended : ¬ ((voidWhenWritten.contains tag && cs.isEmpty) = true) := by
    rw [Bool.and_eq_true, List.contains_iff_mem, List.isEmpty_iff]
    exact fun h => hv h.1 h.2
  simp only [renderItem, ht]
  rw [if_neg hended]

/-- **Where both ways write every element alike, they write the document alike.** -/
theorem flatten_eq_render {items : List Content} (h : AllWrittenOut items) : flatten items = render items := by
  induction items using list_induction with
  | nil => rfl
  | text s rest ih =>
    rw [flatten, render, ih (allWrittenOut_text.1 h)]
    rfl
  | node g cs rest ihc ih =>
    obtain ⟨hhere, hcs, hrest⟩ := allWrittenOut_node.1 h
    rw [flatten, render, ih hrest]
    refine congrArg (· ++ render rest) ?_
    cases ht : g.tag with
    | none => rw [flattenItem_transparent ht, Markup.renderItem_transparent ht, ihc hcs]
    | some tag =>
      have helement := hhere tag ht
      have hattrs : g.attrs.map flatAttr = g.attrs.map renderAttr :=
        List.map_congr_left fun a ha => flatAttr_eq_renderAttr (helement.values a ha)
      rw [flattenItem_element ht, renderItem_element ht helement.ended, hattrs, ihc hcs]
      rfl

/-! ### Transparent nodes -/

/-- A content list in which one transparent node, at any depth, is replaced by its children.  The parent of the list
has the tag given, if it has one, and the node is not directly in a void element. -/
inductive Dissolves : Option String → List Content → List Content → Prop
  | here {parent : Option String} {h : Head} (before cs after : List Content) (ht : h.tag = none)
      (hparent : ∀ tag, parent = some tag → tag ∉ voidWhenWritten) :
      Dissolves parent (before ++ .node h cs :: after) (before ++ cs ++ after)
  | within {parent : Option String} {h : Head} (before : List Content) {cs cs' : List Content}
      (after : List Content) (hcs : Dissolves h.tag cs cs') :
      Dissolves parent (before ++ .node h cs :: after) (before ++ .node h cs' :: after)

variable {parent : Option String} {items items' : List Content}

/-- A void element in which a node is dissolved has content, before and after. -/
theorem Dissolves.ne_nil (h : Dissolves parent items items') {tag : String} (hp : parent = some tag)
    (hv : tag ∈ voidWhenWritten) : items ≠ [] ∧ items' ≠ [] := by
  cases h with
  | here before cs after ht hparent => exact absurd hv (hparent tag hp)
  | within before after hcs => exact ⟨by simp, by simp⟩

/-- **Inside an attribute the children of a transparent node stand for it.** -/
theorem Dissolves.flatten_eq (h : Dissolves parent items items') : flatten items' = flatten items := by
  induction h with
  | here before cs after ht =>
    rw [flatten_append, flatten_append, flatten_append, flatten, flattenItem_transparent ht,
      String.append_assoc]
  | @within _ g before cs cs' after _ ih =>
    have hitem : flattenItem (.node g cs') = flattenItem (.node g cs) := by
      cases ht : g.tag with
      | none => rw [flattenItem_transparent ht, flattenItem_transparent ht, ih]
      | some tag => rw [flattenItem_element ht, flattenItem_element ht, ih]
    rw [flatten_append, flatten_append, flatten, flatten, hitem]

/-- **In markup the children of a transparent node stand for it**, unless it is directly in a void element. -/
theorem Dissolves.render_eq (h : Dissolves parent items items') : render items' = render items := by
  induction h with
  | here before cs after ht =>
    rw [Markup.render_append, Markup.render_append, Markup.render_append, Markup.render,
      Markup.renderItem_transparent ht, String.append_assoc]
  | @within _ g before cs cs' after hcs ih =>
    have hitem : renderItem (.node g cs') = renderItem (.node g cs) := by
      cases ht : g.tag with
      | none => rw [Markup.renderItem_transparent ht, Markup.renderItem_transparent ht, ih]
      | some tag =>
        -- a void element has its end tag before and after, since it keeps some content
        rw [renderItem_element ht fun hv => (hcs.ne_nil ht hv).2,
          renderItem_element ht fun hv => (hcs.ne_nil ht hv).1, ih]
    rw [Markup.render_append, Markup.render_append, Markup.render, Markup.render, hitem]

/-! ### Both ways together -/

/-- **The two ways to write a document agree** where every void element has content, and every attribute of an element
is a bare presence or a text that is not empty and has nothing to escape.  For every document, both write the same
where transparent nodes that are not directly in void elements are replaced by their children, one after the other;
and both write one document behind another as their texts, one behind the other. -/
theorem flatten_and_render_agree (items : List Content) :
    (AllWrittenOut items → flatten items = render items) ∧
      (∀ items', ReflTransGen (Dissolves none) items items' →
        flatten items' = flatten items ∧ render items' = render items) ∧
      ∀ more, flatten (items ++ more) = flatten items ++ flatten more ∧
        render (items ++ more) = render items ++ render more := by
  refine ⟨flatten_eq_render, fun items' h => ?_,
    fun more => ⟨flatten_append items more, Markup.render_append items more⟩⟩
  induction h with
  | refl => exact ⟨rfl, rfl⟩
  | tail _ hstep ih => exact ⟨hstep.flatten_eq.trans ih.1, hstep.render_eq.trans ih.2⟩

/-- In a void element a transparent node is content, though nothing is written for it. -/
example :
    render [.node { tag := some "br" } [.node { tag := none } []]] = "<br></br>" ∧
      render [.node { tag := some "br" } []] = "<br>" := by
  decide +kernel

/-- A document with transparent nodes on top, in an element and in a void element. -/
def groupedSample : List Content :=
  [.node { tag := none } [.text "a ", .node { tag := some "br" } [.node { tag := none } []]],
    .node { tag := some "b", attrs := [("id", .text "k"), ("hidden", .flag true)] }
      [.node { tag := none } [.text "bold"]]]

/-- The same without the transparent nodes that can be dissolved. -/
def ungroupedSample : List Content :=
  [.text "a ", .node { tag := some "br" } [.node { tag := none } []],
    .node { tag := some "b", attrs := [("id", .text "k"), ("hidden", .flag true)] } [.text "bold"]]

theorem groupedSample_agree :
    AllWrittenOut groupedSample ∧ ReflTransGen (Dissolves none) groupedSample ungroupedSample ∧
      flatten groupedSample = render groupedSample ∧ flatten ungroupedSample = flatten groupedSample ∧
      render ungroupedSample = render groupedSample ∧
      render groupedSample = "a <br></br><b id=\"k\" hidden>bold</b>" := by
  have hbreak : WrittenOut "br" [] [.node { tag := none } []] := ⟨fun _ => List.cons_ne_nil _ _, by simp⟩
  have hbold : WrittenOut "b" [("id", .text "k"), ("hidden", .flag true)] [.node { tag := none } [.text "bold"]] :=
    ⟨fun _ => List.cons_ne_nil _ _, by simp [AttrValue.IsPlain, escapedInValues]⟩
  have hwritten : AllWrittenOut groupedSample := by
    simp [groupedSample, hbreak, hbold]
  have htop : Dissolves none groupedSample _ := .here [] _ _ rfl (by simp)
  have hleaf : Dissolves (some "b") [.node { tag := none } [.text "bold"]] [.text "bold"] :=
    .here [] [.text "bold"] [] rfl (by simp [voidWhenWritten])
  have hinside : Dissolves none _ ungroupedSample := .within [_, _] [] hleaf
  have hdissolved : ReflTransGen (Dissolves none) groupedSample ungroupedSample := .tail (.single htop) hinside
  obtain ⟨hagree, hkept, -⟩ := flatten_and_render_agree groupedSample
  exact ⟨hwritten, hdissolved, hagree hwritten, (hkept _ hdissolved).1, (hkept _ hdissolved).2, by decide +kernel⟩

end Content
end PageComposer
