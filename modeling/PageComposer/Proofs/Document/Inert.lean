/-
# Text that is put into a document adds text

A text leaf of what is read is text without tags or one literal construct (`PageComposer.Proofs.Markup.Tagless`). So
where slots hold such text, a document with the text in place of its placeholders is read with the elements that it has
without them (`substituted_text_is_text`): no element more, none less, and each where it was with its attributes.

| not told | why |
| --- | --- |
| a marked section with an angle in it, other than CDATA | it is written as an instruction that ends at the angle (`marked_section_writes_tag`) |
| an attribute of which the name begins with an equals sign | behind a name without a value it is read as its value |
-/

import PageComposer.Proofs.Document.Substitution
import PageComposer.Proofs.Markup.Outline

namespace PageComposer
namespace Content

mutual

/-- The placeholders of an item that are in no other one; `binding` tells whether it is a direct child of an
include. -/
def placeholdersItem (binding : Bool) : Content → List Placeholder
  | .text _ => []
  | .node h cs => if binding || !h.isYield then placeholders h.isInclude cs else [h.placeholder]

/-- The placeholders of a content list that are in no other one. -/
def placeholders (binding : Bool) : List Content → List Placeholder
  | [] => []
  | item :: rest => placeholdersItem binding item ++ placeholders binding rest

end

mutual

/-- An item without its placeholders. -/
def withoutPlaceholdersItem (binding : Bool) : Content → List Content
  | .text s => [.text s]
  | .node h cs => if binding || !h.isYield then [.node h (withoutPlaceholders h.isInclude cs)] else []

/-- A content list without its placeholders. -/
def withoutPlaceholders (binding : Bool) : List Content → List Content
  | [] => []
  | item :: rest => withoutPlaceholdersItem binding item ++ withoutPlaceholders binding rest

end

variable {binding : Bool} {h : Head}

theorem placeholders_kept (hk : (binding || !h.isYield) = true) (cs rest : List Content) :
    placeholders binding (.node h cs :: rest) = placeholders h.isInclude cs ++ placeholders binding rest := by
  rw [placeholders, placeholdersItem, if_pos hk]

theorem placeholders_placeholder (hy : h.isYield = true) (cs rest : List Content) :
    placeholders false (.node h cs :: rest) = h.placeholder :: placeholders false rest := by
  simp [placeholders, placeholdersItem, hy]

theorem withoutPlaceholders_kept (hk : (binding || !h.isYield) = true) (cs rest : List Content) :
    withoutPlaceholders binding (.node h cs :: rest) =
      .node h (withoutPlaceholders h.isInclude cs) :: withoutPlaceholders binding rest := by
  rw [withoutPlaceholders, withoutPlaceholdersItem, if_pos hk]
  rfl

theorem withoutPlaceholders_placeholder (hy : h.isYield = true) (cs rest : List Content) :
    withoutPlaceholders false (.node h cs :: rest) = withoutPlaceholders false rest := by
  simp [withoutPlaceholders, withoutPlaceholdersItem, hy]

/-- An item that is escaped text. -/
def IsText (item : Content) : Prop := ∃ s, item = .text s ∧ Markup.EscapedText s.toList

/-- Escaped text is a simple document without elements. -/
theorem simple_texts {items : List Content} (h : ∀ item ∈ items, item.IsText) :
    Markup.Simple items ∧ Markup.elements items = [] ∧ closed false items = true ∧ copyAll items = items := by
  induction items with
  | nil => exact ⟨.nil, rfl, rfl, rfl⟩
  | cons item rest ih =>
    rw [List.forall_mem_cons] at h
    obtain ⟨⟨s, rfl, hs⟩, hrest⟩ := h
    obtain ⟨hsimple, hnone, hclosed, hcopy⟩ := ih hrest
    exact ⟨.text hs hsimple, by rw [Markup.elements_text, hnone], by rw [closed_text, hclosed],
      by rw [copyAll, hcopy, copy]⟩

/-- **Text in place of placeholders leaves the elements that are there without them.** -/
theorem simple_fillAll {bound : String → Option Filled} {items : List Content} (hs : Markup.Simple items)
    (hb : ∀ p ∈ placeholders binding items, ∃ f, p.name.bind bound = some f ∧ Markup.Simple f.content ∧
      Markup.elements f.content = []) :
    Markup.Simple (fillAll bound binding items).content ∧
      Markup.elements (fillAll bound binding items).content = Markup.elements (withoutPlaceholders binding items) := by
  induction hs generalizing binding with
  | nil => exact ⟨.nil, rfl⟩
  | text hs _ ih =>
    obtain ⟨hsimple, helements⟩ := ih (by simpa [placeholders, placeholdersItem] using hb)
    rw [fillAll_text]
    refine ⟨.text hs hsimple, ?_⟩
    rw [Markup.elements_text, helements, withoutPlaceholders, withoutPlaceholdersItem, List.singleton_append,
      Markup.elements_text]
  | @transparent h cs rest ht _ _ ihc ih =>
    have hk : (binding || !h.isYield) = true := by simp [Head.isYield, ht]
    rw [placeholders_kept hk, List.forall_mem_append] at hb
    obtain ⟨hcs, hcelements⟩ := ihc hb.1
    obtain ⟨hrest, helements⟩ := ih hb.2
    rw [fillAll_kept bound hk, withoutPlaceholders_kept hk, Markup.elements_transparent ht,
      Markup.elements_transparent ht, hcelements, helements]
    exact ⟨.transparent ht hcs hrest, rfl⟩
  | @element h tag cs rest ht he _ _ ihc ih =>
    by_cases hk : (binding || !h.isYield) = true
    · rw [placeholders_kept hk, List.forall_mem_append] at hb
      obtain ⟨hcs, hcelements⟩ := ihc hb.1
      obtain ⟨hrest, helements⟩ := ih hb.2
      rw [fillAll_kept bound hk, withoutPlaceholders_kept hk, Markup.elements_element ht,
        Markup.elements_element ht, hcelements, helements]
      refine ⟨.element ht ⟨he.name, he.attrs, fun hbare => ?_⟩ hcs hrest, rfl⟩
      rw [he.bare hbare]
      rfl
    · obtain ⟨rfl, hy⟩ : binding = false ∧ h.isYield = true := by simpa using hk
      rw [placeholders_placeholder hy, List.forall_mem_cons] at hb
      obtain ⟨⟨f, hf, hfsimple, hfnone⟩, hb⟩ := hb
      obtain ⟨hrest, helements⟩ := ih hb
      rw [fillAll_placeholder bound hy, withoutPlaceholders_placeholder hy]
      simp only [standIn, hf]
      refine ⟨.transparent rfl hfsimple hrest, ?_⟩
      rw [Markup.elements_transparent rfl, hfnone, helements, List.nil_append]

end Content

namespace SlotMap

/-- The slots bind a placeholder to escaped text. -/
def BindsText (slots : SlotMap) (p : Placeholder) : Prop :=
  ∃ name content, p.name = some name ∧ slots.get? name = some content ∧ ∀ item ∈ content, item.IsText

theorem simple_fill {slots : SlotMap} {items : List Content} (hs : Markup.Simple items)
    (hb : ∀ p ∈ Content.placeholders false items, slots.BindsText p) :
    Markup.Simple (slots.fill items).content ∧
      Markup.elements (slots.fill items).content = Markup.elements (Content.withoutPlaceholders false items) := by
  rw [fill_eq]
  refine Content.simple_fillAll hs fun p hp => ?_
  obtain ⟨name, content, hname, hget, htext⟩ := hb p hp
  obtain ⟨hsimple, hnone, hclosed, hcopy⟩ := Content.simple_texts htext
  refine ⟨⟨content, []⟩, ?_, hsimple, hnone⟩
  have hfill : (slots.erase name).fill content = ⟨content, []⟩ := by
    have := @fill_copy (slots.erase name) _ hclosed
    rwa [hcopy] at this
  rw [hname, Option.bind_some, hget, Option.map_some, hcopy, hfill]

open Markup in
/-- **Substituted text is text.**  No leaf that is read outside of a raw element writes a tag, but for an instruction
that ends too soon; and a simple document of which every placeholder is bound to escaped text is read, once the text
stands in it, with the elements that it has without its placeholders. -/
theorem substituted_text_is_text :
    (∀ source items, parse source = .ok items → ∀ s ∈ plainLeaves false items, Tagless s) ∧
      ∀ (slots : SlotMap) (items : List Content), Simple items →
        (∀ p ∈ Content.placeholders false items, slots.BindsText p) →
        ∃ read, parse (render (slots.fill items).content) = .ok read ∧
          elements read = elements (Content.withoutPlaceholders false items) := by
  refine ⟨fun source items h => tagless_of_parse h, fun slots items hs hb => ?_⟩
  obtain ⟨hsimple, helements⟩ := simple_fill hs hb
  obtain ⟨read, hread, hsame⟩ := hsimple.exists_parse_render
  exact ⟨read, hread, hsame.trans helements⟩

section Samples

open Markup

/-- A text with references and angles in it, and what it is read as. -/
def noticeSource : String :=
  "<p title=\"&lt;b>\">1 < 2 &#60;i> & x<!-- <b> --></p><script>if (a<b) c();</script><![CDATA[<b>]]></p>"

def notice : List Content :=
  [.node { tag := some "p", attrs := [("title", .text "<b>")] }
      [.text "1 &lt; 2 &lt;i&gt; &amp; x", .text "<!-- <b> -->"],
    .node { tag := some "script" } [.text "if (a<b) c();"],
    .text "<![CDATA[<b>]]>"]

/-- A yield with a name. -/
def asking (name : String) (cs : List Content) : Content :=
  .node { tag := some "yield", attrs := [("name", .text name)] } cs

/-- A fragment with a placeholder in a paragraph, and another one in what an include binds. -/
def noticeFrame : List Content :=
  [.node { tag := some "p", attrs := [("class", .text "a \"b\""), ("hidden", .flag true)] }
      [.text "see ", asking "body" [.node { tag := some "b" } []], .node { tag := some "br" } []],
    .node { tag := some "include", attrs := [("src", .text "menu")] } [asking "top" [asking "body" []]],
    .node { tag := some "script" } []]

/-- Text that writes an element, escaped, and a blank. -/
def noticeText : List Content := [.text (textLeaf ['<', 'i', '>', '&']), .text (textLeaf [' '])]

theorem isText_textLeaf (cs : List Char) : (Content.text (textLeaf cs)).IsText := by
  refine ⟨_, rfl, ?_⟩
  rw [textLeaf, String.toList_ofList]
  exact escapedText_escaped cs

theorem simple_asking {name : String} (hname : name.isEmpty = false) {cs rest : List Content} (hcs : Simple cs)
    (hrest : Simple rest) : Simple (asking name cs :: rest) := by
  have hattrs : WrittenAttrs [("name", .text name)] :=
    ⟨by simp; decide, by simp, fun a ha => .inr ⟨name, by simp_all, hname⟩⟩
  exact .element rfl ⟨by decide, hattrs.read, fun h => absurd h (by decide)⟩ hcs hrest

theorem simple_noticeFrame : Simple noticeFrame := by
  have hbare {tag : String} (hname : isTagName tag = true) : SimpleElement tag [] [] :=
    ⟨hname, WrittenAttrs.read ⟨by decide, by decide, by simp⟩, fun _ => rfl⟩
  refine .element rfl ⟨by decide, WrittenAttrs.read ⟨by decide, by decide, by simp⟩, fun h => absurd h (by decide)⟩ ?_
    (.element rfl ⟨by decide, WrittenAttrs.read ⟨by decide, by decide, by simp⟩, fun h => absurd h (by decide)⟩ ?_
      (.element rfl (hbare (by decide)) .nil .nil))
  · refine .text (escapedText_escaped "see ".toList) (simple_asking (by decide) ?_ ?_)
    · exact .element rfl (hbare (by decide)) .nil .nil
    · exact .element rfl (hbare (by decide)) .nil .nil
  · exact simple_asking (by decide) (simple_asking (by decide) .nil .nil) .nil

/-- What is read holds no tag in a text leaf; and the fragment is read, with text in the place of both of its
placeholders, as its paragraph, its include with the binding, and its script. -/
theorem notice_is_text :
    parse noticeSource = .ok notice ∧ (∀ s ∈ plainLeaves false notice, Tagless s) ∧
      plainLeaves false notice = ["1 &lt; 2 &lt;i&gt; &amp; x", "<!-- <b> -->", "<![CDATA[<b>]]>"] ∧
      Simple noticeFrame ∧ (Content.placeholders false noticeFrame).length = 2 ∧
      (∀ p ∈ Content.placeholders false noticeFrame, BindsText [("body", noticeText)] p) ∧
      ∃ read, parse (render (fill [("body", noticeText)] noticeFrame).content) = .ok read ∧
        elements read =
          [.node { tag := some "p", attrs := [("class", .text "a \"b\""), ("hidden", .flag true)] }
              [.node { tag := some "br" } []],
            .node { tag := some "include", attrs := [("src", .text "menu")] } [asking "top" []],
            .node { tag := some "script" } []] := by
  have hread : parse noticeSource = .ok notice := by decide +kernel
  have hbinds : ∀ p ∈ Content.placeholders false noticeFrame, BindsText [("body", noticeText)] p := by
    have hnames : Content.placeholders false noticeFrame = [⟨some "body", false⟩, ⟨some "body", false⟩] := by decide
    rw [hnames]
    simp only [List.mem_cons, List.not_mem_nil, or_false, or_self, forall_eq]
    refine ⟨"body", noticeText, rfl, by decide, ?_⟩
    simp only [noticeText, List.forall_mem_cons, List.not_mem_nil, IsEmpty.forall_iff, implies_true, and_true]
    exact ⟨isText_textLeaf _, isText_textLeaf _⟩
  refine ⟨hread, substituted_text_is_text.1 _ _ hread, by decide, simple_noticeFrame, by decide, hbinds, ?_⟩
  obtain ⟨read, hparse, helements⟩ := substituted_text_is_text.2 _ _ simple_noticeFrame hbinds
  exact ⟨read, hparse, helements.trans (by decide)⟩

end Samples

open Markup in
/-- A marked section with an angle in it is written as an instruction, and what stands behind the angle as markup; an
attribute that begins with an equals sign is written as the value of the one before it. -/
theorem marked_section_writes_tag :
    (parse "<![if a><b>]>" = .ok [.text "<?if a><b>?>"] ∧ ¬EscapedText "<?if a><b>?>".toList ∧
      ¬Whole "<?if a><b>?>".toList ∧
      parse "<?if a><b>?>" = .ok [.text "<?if a>", .node { tag := some "b" } [.text "?&gt;"]]) ∧
    ∃ t read, parse "<p a/=x></p>" = .ok t ∧ Content.placeholders false t = [] ∧
      parse (render (fill [] t).content) = .ok read ∧
      elements read ≠ elements (Content.withoutPlaceholders false t) := by
  have hstep : step false ("<?if a><b>?>".toList ++ []) =
      .ok (.go [.instruction "if a".toList] none "<b>?>".toList) := rfl
  refine ⟨⟨by decide +kernel, fun h => h.noOpening (by decide), ?_, by decide +kernel⟩, ?_⟩
  · rintro ⟨t, -, hwhole⟩
    obtain ⟨-, -, hrest⟩ := Step.go.inj (Except.ok.inj (hstep.symm.trans (hwhole false [])))
    cases hrest
  · refine ⟨[.node { tag := some "p", attrs := [("a", .flag true), ("=x", .flag true)] } []],
      [.node { tag := some "p", attrs := [("a", .text "x")] } []], by decide +kernel, by decide, ?_, by decide⟩
    rw [fill_eq, Content.fillAll_of_closed _ (by decide)]
    decide +kernel

end SlotMap
end PageComposer
