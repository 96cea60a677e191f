/-
# Text changes no element

The elements of a document are what is left of it without its text leaves (`elements`). Where the text leaves are
escaped text they are read from what is written as they were (`exists_parse_render`), in whatever pieces the text
stands: empty leaves, blanks and leaves side by side are read otherwise than they were written, but they are read as
text.

Both halves of the proof let text alone. Of the tokens only the tags are told (`Outlines`), and a builder is compared
with one that has taken the tags alone (`Builder.Outlined`).
-/

import Mathlib.Data.List.Forall2
import PageComposer.Proofs.Markup.Passes
import PageComposer.Proofs.Markup.Tagless

namespace PageComposer
namespace Markup

/-! ### Elements -/

mutual

/-- The elements of an item with their attributes and what is below them. A transparent node stands for its
content. -/
def elementsItem : Content → List Content
  | .text _ => []
  | .node h cs =>
    match h.tag with
    | none => elements cs
    | some tag => [.node { tag := some tag, attrs := h.attrs } (elements cs)]

/-- The elements of a content list. -/
def elements : List Content → List Content
  | [] => []
  | item :: rest => elementsItem item ++ elements rest

end

@[simp] theorem elements_nil : elements [] = [] := rfl

@[simp] theorem elements_text (s : String) (rest : List Content) : elements (.text s :: rest) = elements rest := by
  simp [elements, elementsItem]

theorem elements_append (xs ys : List Content) : elements (xs ++ ys) = elements xs ++ elements ys := by
  induction xs with
  | nil => rfl
  | cons x xs ih => simp [elements, ih]

theorem elements_transparent {h : Head} (ht : h.tag = none) (cs rest : List Content) :
    elements (.node h cs :: rest) = elements cs ++ elements rest := by
  simp [elements, elementsItem, ht]

theorem elements_element {h : Head} {tag : String} (ht : h.tag = some tag) (cs rest : List Content) :
    elements (.node h cs :: rest) = .node { tag := some tag, attrs := h.attrs } (elements cs) :: elements rest := by
  simp [elements, elementsItem, ht]

/-- An element of which the tags are read as they are written: its name is simple, and without content if readers
close it at once or take its content as it is. -/
structure SimpleElement (tag : String) (attrs : Attrs) (cs : List Content) : Prop where
  name : isTagName tag = true
  attrs : ReadAttrs attrs
  bare : tag ∈ voidWhenRead ∨ tag ∈ rawElements → cs = []

/-- Documents of such elements and of escaped text. -/
inductive Simple : List Content → Prop
  | nil : Simple []
  | text {s : String} {rest : List Content} (hs : EscapedText s.toList) (hrest : Simple rest) :
      Simple (.text s :: rest)
  | transparent {h : Head} {cs rest : List Content} (ht : h.tag = none) (hcs : Simple cs) (hrest : Simple rest) :
      Simple (.node h cs :: rest)
  | element {h : Head} {tag : String} {cs rest : List Content} (ht : h.tag = some tag)
      (he : SimpleElement tag h.attrs cs) (hcs : Simple cs) (hrest : Simple rest) : Simple (.node h cs :: rest)

/-! ### Tokens -/

/-- `ts` are tokens of which the tags are those of the elements `items`; the others are character data. -/
inductive Outlines : List Token → List Content → Prop
  | nil : Outlines [] []
  | text (s : List Char) {ts : List Token} {items : List Content} (h : Outlines ts items) :
      Outlines (.text s :: ts) items
  | void {tag : String} {attrs : Attrs} {ends ts : List Token} {rest : List Content} (ha : ReadAttrs attrs)
      (hv : tag ∈ voidWhenRead) (hends : ends = [] ∨ ends = [.endTag tag]) (hrest : Outlines ts rest) :
      Outlines (.startTag tag (tokenAttrs attrs) false :: (ends ++ ts))
        (.node { tag := some tag, attrs := attrs } [] :: rest)
  | element {tag : String} {attrs : Attrs} {inner ts : List Token} {cs rest : List Content} (ha : ReadAttrs attrs)
      (hv : tag ∉ voidWhenRead) (hcs : Outlines inner cs) (hrest : Outlines ts rest) :
      Outlines (.startTag tag (tokenAttrs attrs) false :: (inner ++ .endTag tag :: ts))
        (.node { tag := some tag, attrs := attrs } cs :: rest)

theorem Outlines.texts (pieces : List (List Char)) {ts : List Token} {items : List Content} (h : Outlines ts items) :
    Outlines (pieces.map .text ++ ts) items := by
  induction pieces with
  | nil => exact h
  | cons piece pieces ih => exact .text piece ih

theorem Outlines.append {ts us : List Token} {xs ys : List Content} (h : Outlines ts xs) (h' : Outlines us ys) :
    Outlines (ts ++ us) (xs ++ ys) := by
  induction h with
  | nil => exact h'
  | text s _ ih => exact .text s ih
  | void ha hv hends _ ih =>
    rw [List.cons_append, List.append_assoc]
    exact .void ha hv hends ih
  | element ha hv hcs _ _ ih =>
    rw [List.cons_append, List.append_assoc, List.cons_append]
    exact .element ha hv hcs ih

/-- Behind any characters that are written as they are, the text is read as tokens such that `P`. Such characters
join the run that the text begins with, so what they are read as is not told. -/
def Absorbs (P : List Token → Prop) (cs : List Char) : Prop :=
  ∀ run : List Char, (∀ c ∈ run, isEscaped c = false) → ∃ ts, P ts ∧ Lexes (run ++ cs) ts

theorem Absorbs.lexes {P : List Token → Prop} {cs : List Char} (h : Absorbs P cs) : ∃ ts, P ts ∧ Lexes cs ts :=
  h [] (by simp)

/-- What begins with a tag, or nothing, is read behind the characters. -/
theorem absorbs_of_lexes {cs : List Char} {ts : List Token} (hcs : ∀ c ∈ cs.head?, c = '<') (h : Lexes cs ts) :
    Absorbs (fun us => ∃ pieces : List (List Char), us = pieces.map .text ++ ts) cs := by
  intro run hrun
  obtain ⟨pieces, -, hlex⟩ := lexes_run hrun (fun c hc => .inl (hcs c hc)) h
  exact ⟨_, ⟨pieces, rfl⟩, hlex⟩

/-- Escaped text is read as character data, in some pieces. -/
theorem absorbs_escaped {P : List Token → Prop} {rest : List Char} (h : Absorbs P rest) (cs : List Char) :
    Absorbs (fun us => ∃ (pieces : List (List Char)) (ts : List Token), us = pieces.map .text ++ ts ∧ P ts)
      (escaped cs ++ rest) := by
  induction cs with
  | nil =>
    intro run hrun
    obtain ⟨ts, hts, hlex⟩ := h run hrun
    exact ⟨ts, ⟨[], ts, rfl, hts⟩, hlex⟩
  | cons c cs ih =>
    intro run hrun
    rw [escaped, List.flatMap_cons, List.append_assoc, ← escaped]
    cases hc : isEscaped c with
    | false =>
      -- the character goes on with the run
      obtain ⟨ts, hts, hlex⟩ := ih (run ++ [c]) (by simpa [or_imp, forall_and] using ⟨hrun, hc⟩)
      rw [List.append_assoc] at hlex
      exact ⟨ts, hts, by rwa [escapedChar_of_not_isEscaped hc]⟩
    | true =>
      obtain ⟨_, ⟨pieces, ts, rfl, hts⟩, hlex⟩ := ih.lexes
      obtain ⟨ref, href⟩ : ∃ ref, escapedChar c = '&' :: ref := by
        simp only [isEscaped, Bool.or_eq_true, beq_iff_eq] at hc
        rcases hc with (rfl | rfl) | rfl <;> exact ⟨_, rfl⟩
      have hstep := Lexes.step (by rw [href]; exact List.cons_ne_nil _ _) (fun last => step_reference hc last _) hlex
      obtain ⟨before, -, hall⟩ := lexes_run hrun (by simp [href]) hstep
      exact ⟨_, ⟨before ++ [c] :: pieces, ts, by simp, hts⟩, hall⟩

/-- The end tag of a raw element right behind its start tag ends it. -/
theorem rawStep_end {tag : String} (hraw : tag ∈ rawElements) (rest : List Char) :
    rawStep tag ('<' :: '/' :: (tag.toList ++ '>' :: rest)) = .go [.endTag tag] none rest := by
  have hend : afterRawEnd? tag.toList ('<' :: '/' :: (tag.toList ++ '>' :: rest)) = some rest := by
    simp only [rawElements, List.mem_cons, List.not_mem_nil, or_false] at hraw
    rcases hraw with rfl | rfl <;> rfl
  have hbefore : before ('<' :: '/' :: (tag.toList ++ '>' :: rest)) rest = '<' :: '/' :: (tag.toList ++ ['>']) := by
    have hchars : '<' :: '/' :: (tag.toList ++ '>' :: rest) = '<' :: '/' :: (tag.toList ++ ['>']) ++ rest := by simp
    rw [before, hchars, List.length_append, Nat.add_sub_cancel, List.take_left]
  rw [rawStep_eq, splitBefore?_of_close hend]
  simp only [List.length_nil, List.drop_zero, hbefore, rawEnd]
  simp only [rawElements, List.mem_cons, List.not_mem_nil, or_false] at hraw
  rcases hraw with rfl | rfl <;> rfl

/-- An empty element is read as its tags, whichever content readers look for in it. -/
theorem Lexes.empty {tag : String} {attrs : Attrs} (ht : isTagName tag = true) (ha : ReadAttrs attrs)
    {rest : List Char} {ts : List Token} (h : Lexes rest ts) :
    Lexes ((startTagText tag attrs).toList ++ '<' :: '/' :: (tag.toList ++ '>' :: rest))
      (.startTag tag (tokenAttrs attrs) false :: .endTag tag :: ts) := by
  by_cases hraw : tag ∈ rawElements
  · intro last fuel hfuel
    obtain ⟨fuel, rfl⟩ : ∃ k, fuel = k + 2 := ⟨fuel - 2, by simp [startTagText] at hfuel; omega⟩
    have hopens : opensRaw [.startTag tag (tokenAttrs attrs) false] = some tag := by simp [opensRaw, hraw]
    have hstart := step_spelled ht ha (spellsValues_quotedChar attrs) last ('<' :: '/' :: (tag.toList ++ '>' :: rest))
    rw [hopens, ← attrsChars_eq ha, ← startTagText_toList] at hstart
    rw [pass_succ (by simp [startTagText]), nextStep_none, hstart]
    simp only [bind, Except.bind, Step.onward]
    rw [pass_succ (List.cons_ne_nil _ _), nextStep_some, rawStep_end hraw]
    simp only [bind, Except.bind, Step.onward]
    rw [h last fuel (by simp [startTagText] at hfuel; omega)]
    rfl
  · exact (h.endTag ht).startTag ht hraw ha

/-- **A simple document is written as its tags with character data between them.** -/
theorem Simple.absorbs {items : List Content} (h : Simple items) {P : List Token → Prop} {more : List Char}
    (hmore : Absorbs P more) :
    Absorbs (fun us => ∃ ts ms, us = ts ++ ms ∧ Outlines ts (elements items) ∧ P ms)
      ((render items).toList ++ more) := by
  induction h generalizing P more with
  | nil =>
    intro run hrun
    obtain ⟨ms, hms, hlex⟩ := hmore run hrun
    exact ⟨ms, ⟨[], ms, rfl, .nil, hms⟩, hlex⟩
  | @text s rest hs hrest ih =>
    obtain ⟨cs, hcs⟩ := exists_escaped _ hs
    rw [render_text, String.toList_append, List.append_assoc, hcs, elements_text]
    intro run hrun
    obtain ⟨_, ⟨pieces, _, rfl, ts, ms, rfl, hts, hms⟩, hlex⟩ := absorbs_escaped (ih hmore) cs run hrun
    exact ⟨_, ⟨_, ms, (List.append_assoc ..).symm, hts.texts pieces, hms⟩, hlex⟩
  | @transparent h cs rest ht hcs hrest ihc ih =>
    rw [render_transparent ht, String.toList_append, List.append_assoc, elements_transparent ht]
    intro run hrun
    obtain ⟨_, ⟨us, _, rfl, hus, ts, ms, rfl, hts, hms⟩, hlex⟩ := ihc (ih hmore) run hrun
    exact ⟨_, ⟨us ++ ts, ms, (List.append_assoc ..).symm, hus.append hts, hms⟩, hlex⟩
  | @element h tag cs rest ht he hcs hrest ihc ih =>
    obtain ⟨_, ⟨ts, ms, rfl, hts, hms⟩, hlex⟩ := (ih hmore).lexes
    rw [elements_element ht]
    -- it is enough to read the element from its start tag on
    suffices hsuff : ∃ us, Outlines (us ++ ts) (.node { tag := some tag, attrs := h.attrs } (elements cs) :: elements rest) ∧
        Lexes ((render (.node h cs :: rest)).toList ++ more) (us ++ (ts ++ ms)) ∧
        ∀ c ∈ ((render (.node h cs :: rest)).toList ++ more).head?, c = '<' by
      obtain ⟨us, hus, hlex, hhead⟩ := hsuff
      intro run hrun
      obtain ⟨_, ⟨pieces, rfl⟩, hall⟩ := absorbs_of_lexes hhead hlex run hrun
      exact ⟨_, ⟨pieces.map .text ++ (us ++ ts), ms, by simp, hus.texts pieces, hms⟩, hall⟩
    by_cases hw : tag ∈ voidWhenWritten
    · have hv := voidWhenWritten_subset hw
      obtain rfl := he.bare (.inl hv)
      have hraw : tag ∉ rawElements := by
        have hall : ∀ tag ∈ voidWhenWritten, tag ∉ rawElements := by decide
        exact hall tag hw
      rw [render_void ht hw, String.toList_append, List.append_assoc]
      refine ⟨[_], .void he.attrs hv (.inl rfl) hts, hlex.startTag he.name hraw he.attrs, ?_⟩
      simp [startTagText]
    · have hchars : (render (.node h cs :: rest)).toList ++ more =
          (startTagText tag h.attrs).toList ++ ((render cs).toList ++
            '<' :: '/' :: (tag.toList ++ '>' :: ((render rest).toList ++ more))) := by
        rw [render_element ht hw]
        simp
      rw [hchars]
      by_cases hbare : tag ∈ voidWhenRead ∨ tag ∈ rawElements
      · obtain rfl := he.bare hbare
        refine ⟨[_, _], ?_, hlex.empty he.name he.attrs, by simp [startTagText]⟩
        by_cases hv : tag ∈ voidWhenRead
        · exact .void he.attrs hv (.inr rfl) hts
        · exact .element he.attrs hv .nil hts
      · rw [not_or] at hbare
        obtain ⟨_, ⟨inner, _, rfl, hinner, pieces, rfl⟩, hlex⟩ :=
          (ihc (absorbs_of_lexes (by simp) (hlex.endTag he.name))).lexes
        have hall := hlex.startTag he.name hbare.2 he.attrs
        refine ⟨.startTag tag (tokenAttrs h.attrs) false :: (inner ++ pieces.map .text) ++ [.endTag tag], ?_, ?_,
          by simp [startTagText]⟩
        · have hcontent : Outlines (inner ++ pieces.map .text) (elements cs) := by
            simpa using hinner.append (Outlines.nil.texts pieces)
          simpa using Outlines.element he.attrs hbare.1 hcontent hts
        · simpa using hall

/-! ### Building -/

/-- The same open element but for its text leaves. -/
structure Frame.Outlined (f f' : Frame) : Prop where
  name : f.name = f'.name
  attrs : f.attrs = f'.attrs
  items : elements f.items.reverse = f'.items.reverse

namespace Builder

/-- `b'` is `b` without text leaves and without collected character data. -/
structure Outlined (b b' : Builder) : Prop where
  opened : List.Forall₂ Frame.Outlined b.opened b'.opened
  items : elements b.items.reverse = b'.items.reverse
  data : b'.data = []
  closed : b.closed = b'.closed

variable {b b' : Builder}

theorem elements_reverse_cons (item : Content) (items : List Content) :
    elements (item :: items).reverse = elements items.reverse ++ elementsItem item := by
  rw [List.reverse_cons, elements_append]
  simp [elements]

/-- What is added to both sides is an item, or nothing beside a text leaf. -/
theorem Outlined.add (h : b.Outlined b') {item item' : Content} (hitem : elementsItem item = [item']) :
    (b.add item).Outlined (b'.add item') := by
  obtain ⟨opened, items, data, closed⟩ := b
  obtain ⟨opened', items', data', closed'⟩ := b'
  obtain ⟨hopened, hitems, hdata, hclosed⟩ := h
  dsimp only at hopened hitems hdata hclosed
  cases hopened with
  | nil =>
    refine ⟨.nil, ?_, hdata, hclosed⟩
    show elements (item :: items).reverse = (item' :: items').reverse
    rw [elements_reverse_cons, hitems, hitem, List.reverse_cons]
  | cons hf hfs =>
    refine ⟨.cons ⟨hf.name, hf.attrs, ?_⟩ hfs, hitems, hdata, hclosed⟩
    rw [elements_reverse_cons, hf.items, hitem, List.reverse_cons]

theorem Outlined.add_text (h : b.Outlined b') (s : String) : (b.add (.text s)).Outlined b' := by
  have hnone : elementsItem (.text s) = [] := by simp [elementsItem]
  obtain ⟨opened, items, data, closed⟩ := b
  obtain ⟨opened', items', data', closed'⟩ := b'
  obtain ⟨hopened, hitems, hdata, hclosed⟩ := h
  dsimp only at hopened hitems hdata hclosed
  cases hopened with
  | nil =>
    refine ⟨.nil, ?_, hdata, hclosed⟩
    show elements (.text s :: items).reverse = items'.reverse
    rw [elements_reverse_cons, hnone, List.append_nil, hitems]
  | cons hf hfs =>
    refine ⟨.cons ⟨hf.name, hf.attrs, ?_⟩ hfs, hitems, hdata, hclosed⟩
    rw [elements_reverse_cons, hnone, List.append_nil]
    exact hf.items

/-- Collected character data becomes text. -/
theorem Outlined.flush (h : b.Outlined b') : b.flush.Outlined b' := by
  unfold Builder.flush
  split
  · exact h
  · exact add_text (b := { b with data := [] }) ⟨h.opened, h.items, h.data, h.closed⟩ _

theorem Outlined.openElement (h : b.Outlined b') (name : String) (attrs : List (String × String)) :
    (b.openElement name attrs).Outlined (b'.openElement name attrs) := by
  have hf := h.flush
  unfold Builder.openElement
  rw [flush_of_data h.data]
  exact ⟨.cons ⟨rfl, rfl, rfl⟩ hf.opened, hf.items, hf.data, hf.closed⟩

theorem elementsItem_close (f : Frame) :
    elementsItem (close f) = [.node { tag := some f.name, attrs := f.attrs } (elements f.items.reverse)] := by
  simp [close, elementsItem]

theorem Outlined.pop (h : b.Outlined b') : b.pop.Outlined b'.pop := by
  obtain ⟨opened, items, data, closed⟩ := b
  obtain ⟨opened', items', data', closed'⟩ := b'
  obtain ⟨hopened, hitems, hdata, hclosed⟩ := h
  dsimp only at hopened hitems hdata hclosed
  cases hopened with
  | nil => exact ⟨.nil, hitems, hdata, hclosed⟩
  | @cons f f' fs fs' hf hfs =>
    refine @Outlined.add ⟨fs, items, data, closed⟩ ⟨fs', items', data', closed'⟩
      ⟨hfs, hitems, hdata, hclosed⟩ _ _ ?_
    rw [elementsItem_close, hf.name, hf.attrs, hf.items]
    rfl

theorem Outlined.popThrough (h : b.Outlined b') (name : String) (n : Nat) :
    (b.popThrough name n).Outlined (b'.popThrough name n) := by
  induction n generalizing b b' with
  | zero => exact h
  | succ n ih =>
    have hpop := h.pop
    unfold Builder.popThrough
    generalize hopened : b.opened = fs
    generalize hopened' : b'.opened = fs'
    have hfs := h.opened
    rw [hopened, hopened'] at hfs
    cases hfs with
    | nil => exact h
    | cons hf _ =>
      simp only [hf.name]
      split
      · exact hpop
      · exact ih hpop

/-- The same elements are open on both sides. -/
theorem Outlined.any_opened (h : b.Outlined b') (name : String) :
    b.opened.any (fun f => f.name == name) = b'.opened.any (fun f => f.name == name) := by
  have hopened := h.opened
  generalize b.opened = fs at hopened
  generalize b'.opened = fs' at hopened
  induction hopened with
  | nil => rfl
  | cons hf _ ih => rw [List.any_cons, List.any_cons, hf.name, ih]

theorem Outlined.endElement (h : b.Outlined b') (name : String) :
    (b.endElement name).Outlined (b'.endElement name) := by
  have hf := h.flush
  unfold Builder.endElement
  rw [flush_of_data h.data]
  dsimp only
  rw [hf.any_opened name, hf.opened.length_eq]
  split
  · exact hf.popThrough name _
  · exact hf

/-- Character data makes no difference. -/
theorem Outlined.take_text (h : b.Outlined b') (s : List Char) : (b.take (.text s)).Outlined b' :=
  ⟨h.opened, h.items, h.data, h.closed⟩

/-- A start tag makes the same difference on both sides. -/
theorem Outlined.take_startTag (h : b.Outlined b') (name : String) (attrs : List (String × String)) :
    (b.take (.startTag name attrs false)).Outlined (b'.take (.startTag name attrs false)) := by
  have hopen := h.openElement name attrs
  have hend := hopen.endElement name
  unfold Builder.take
  dsimp only
  split
  · exact ⟨hend.opened, hend.items, hend.data, congrArg (name :: ·) hend.closed⟩
  · exact hopen

/-- An end tag makes the same difference on both sides. -/
theorem Outlined.take_endTag (h : b.Outlined b') (name : String) :
    (b.take (.endTag name)).Outlined (b'.take (.endTag name)) := by
  unfold Builder.take Builder.writtenEnd
  dsimp only
  rw [h.closed]
  split
  · exact ⟨h.opened, h.items, h.data, rfl⟩
  · exact h.endElement name

theorem Outlined.finish (h : b.Outlined b') : elements b.finish = b'.finish := by
  have hpops : ∀ (fs : List Frame) (fs' : List Frame) (c c' : Builder), fs.length = fs'.length → c.Outlined c' →
      (fs.foldl (fun b _ => b.pop) c).Outlined (fs'.foldl (fun b _ => b.pop) c') := by
    intro fs
    induction fs with
    | nil =>
      intro fs' c c' hlen hc
      obtain rfl := List.length_eq_zero_iff.1 hlen.symm
      exact hc
    | cons f fs ih =>
      intro fs' c c' hlen hc
      obtain ⟨f', fs', rfl⟩ := List.exists_cons_of_length_pos (l := fs') (by simp [← hlen])
      exact ih fs' c.pop c'.pop (by simpa using hlen) hc.pop
  have hf := h.flush
  unfold Builder.finish
  rw [flush_of_data h.data]
  exact (hpops _ _ _ _ hf.opened.length_eq hf).items

end Builder

/-- **The elements are built from their tags**, whatever character data stands between these. -/
theorem Outlines.build {ts : List Token} {items : List Content} (h : Outlines ts items) {b b' : Builder}
    (hb : b.Outlined b') (hclosed : b'.closed ⊆ voidWhenRead) :
    ∃ closed, closed ⊆ voidWhenRead ∧
      (ts.foldl Builder.take b).Outlined { b'.put items with closed := closed } := by
  induction h generalizing b b' with
  | nil => exact ⟨b'.closed, hclosed, by rw [Builder.put_nil]; exact hb⟩
  | text s _ ih => exact ih (hb.take_text s) hclosed
  | @void tag attrs ends ts rest ha hv hends hrest ih =>
    have hstart := hb.take_startTag tag (tokenAttrs attrs)
    rw [Builder.take_void ha hv b', Builder.flush_of_data hb.data] at hstart
    -- the end tag, if there is one, is waited for on both sides
    obtain ⟨waiting, hwaiting, hended⟩ : ∃ waiting, waiting ⊆ tag :: b'.closed ∧
        (ends.foldl Builder.take (b.take (.startTag tag (tokenAttrs attrs) false))).Outlined
          { b'.add (.node { tag := some tag, attrs := attrs } []) with closed := waiting } := by
      rcases hends with rfl | rfl
      · exact ⟨tag :: b'.closed, List.Subset.refl _, hstart⟩
      · exact ⟨b'.closed, List.subset_cons_self .., by simpa [Builder.take, Builder.writtenEnd] using hstart.take_endTag tag⟩
    have hsub : waiting ⊆ voidWhenRead :=
      List.Subset.trans hwaiting (List.cons_subset.2 ⟨hv, hclosed⟩)
    obtain ⟨closed, hclosed, hbuilt⟩ := ih hended hsub
    refine ⟨closed, hclosed, ?_⟩
    rw [List.foldl_cons, List.foldl_append, Builder.put_cons]
    rwa [Builder.put_closed] at hbuilt
  | @element tag attrs inner ts cs rest ha hv hcs hrest ihc ih =>
    have hstart := hb.take_startTag tag (tokenAttrs attrs)
    rw [Builder.take_open ha hv b', Builder.flush_of_data hb.data] at hstart
    obtain ⟨inside, hinside, hbuilt⟩ := ihc hstart hclosed
    have hend := hbuilt.take_endTag tag
    have hflush : { (b'.push ⟨tag, attrs, []⟩).put cs with closed := inside }.flush =
        { (b'.flush.push ⟨tag, attrs, []⟩).flush.put cs with closed := inside } := by
      rw [Builder.flush_of_data hbuilt.data, Builder.flush_of_data hb.data, Builder.flush_of_data hstart.data]
    rw [Builder.take_close hflush fun hmem => hv (hinside hmem), Builder.flush_of_data hb.data] at hend
    obtain ⟨closed, hclosed, hbuilt⟩ := ih hend (by simpa using hinside)
    refine ⟨closed, hclosed, ?_⟩
    rw [← Builder.put_cons, Builder.put_closed] at hbuilt
    rwa [List.foldl_cons, List.foldl_append, List.foldl_cons]

/-- **What is written of a simple document is read with its elements.** -/
theorem Simple.exists_parse_render {items : List Content} (h : Simple items) :
    ∃ read, parse (render items) = .ok read ∧ elements read = elements items := by
  have hnone : Absorbs (fun us => ∃ pieces : List (List Char), us = pieces.map .text ++ []) [] :=
    absorbs_of_lexes (by simp) .nil
  obtain ⟨_, ⟨ts, _, rfl, hts, pieces, rfl⟩, hlex⟩ := (h.absorbs hnone).lexes
  have hall : Outlines (ts ++ (pieces.map .text ++ [])) (elements items) := by
    simpa using hts.append (Outlines.nil.texts pieces)
  rw [List.append_nil] at hlex
  have hempty : ({} : Builder).Outlined {} := ⟨.nil, rfl, rfl, rfl⟩
  obtain ⟨closed, -, hbuilt⟩ := hall.build hempty (by simp)
  refine ⟨_, by rw [parse, tokens_of_lexes hlex]; rfl, ?_⟩
  rw [hbuilt.finish]
  simp [Builder.finish, Builder.put, Builder.flush]

end Markup
end PageComposer
