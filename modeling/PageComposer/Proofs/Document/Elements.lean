/-
# Placeholders that are elements

Rewriting replaces values in the text of a fragment, and the fragment is parsed afterwards. Where the first pass of
the parser finds each value that matches as the value of an attribute of a start tag, once the double quotes in it are
written as single ones (`requoted`), rewriting changes nothing else: both texts are read as one document with the
values in its holes (`parse_parts`). So every yield that is an element stays one, with the same elements around it and
the same name (`yields_rewrite`).

| read by the parser | why the condition is needed |
| --- | --- |
| the value with its double quotes | a double quote in it ends the value (`yields_lost`) |
| what stands before the value | a comment that has no end is none (`yields_lost`) |
-/

import Mathlib.Data.List.Forall2
import PageComposer.Proofs.Document.Bindings
import PageComposer.Proofs.Document.Spliced
import PageComposer.Proofs.Markup.Open

namespace PageComposer
namespace AttributeSlots

open Markup
open PageComposer.Part (writeAll values holes mem_holes)

/-! ### Values without double quotes -/

/-- The value of a match with its double quotes as single ones. -/
def requoted (s : Splice) : List Char := s.value.map fun c => if c = '"' then '\'' else c

theorem quote_not_mem_requoted (s : Splice) : '"' ∉ requoted s := by
  intro h
  obtain ⟨c, -, hc⟩ := List.mem_map.1 h
  split at hc
  · exact absurd hc (by decide)
  · rename_i hne
    exact hne hc

/-- A match holds the name of a slot in quotes. -/
theorem apostrophe_mem_requoted {cs : List Char} {s : Splice} (h : splice? cs = some s) : '\'' ∈ requoted s := by
  obtain ⟨front, placeholder, after, hvalue, -, -, hp⟩ := splice?_form h
  obtain ⟨o, ho, close, more, -, -, -, -, -, htext⟩ := placeholder?_eq_some.1 hp
  obtain ⟨quote, hquote, hmem⟩ : ∃ quote, isQuote quote = true ∧ quote ∈ s.value := by
    obtain ⟨-, -, hquote⟩ := ho
    exact ⟨_, hquote, by simp [hvalue, htext]⟩
  refine List.mem_map.2 ⟨quote, hmem, ?_⟩
  rcases isQuote_iff.1 hquote with rfl | rfl <;> rfl

/-- A text in which no value that matches holds a double quote is its own. -/
theorem writeAll_requoted {cs : List Char} (h : ∀ s ∈ holes (parts false cs), '"' ∉ s.value) :
    writeAll requoted (parts false cs) = cs := by
  have hsame : ∀ s ∈ holes (parts false cs), requoted s = s.value := by
    intro s hs
    have hid : ∀ c ∈ s.value, (if c = '"' then '\'' else c) = c := fun c hc => if_neg fun he : c = '"' => h s hs (he ▸ hc)
    rw [requoted, List.map_congr_left hid, List.map_id']
  rw [Part.writeAll_congr hsame, writeAll_parts]

/-- A hole of a text is a match. -/
theorem splice?_of_mem_holes {named : Bool} {cs : List Char} {s : Splice} (h : s ∈ holes (parts named cs)) :
    ∃ value, splice? value = some s := by
  fun_induction parts named cs with
  | case1 => cases h
  | case2 named c cs s' hs ih =>
    rcases List.mem_cons.1 h with rfl | h
    · unfold spliceAt? at hs
      split at hs
      · obtain ⟨value, -, hvalue⟩ := Option.bind_eq_some_iff.1 hs
        exact ⟨value, hvalue⟩
      · cases hs
    · exact ih h
  | case3 named c cs hs ih => exact ih h

/-! ### Yields and what is around them -/

mutual

/-- The yields of an item, each with the tags of the elements around it, the innermost first. -/
def yieldsItem (around : List (Option String)) : Content → List (List (Option String) × Head)
  | .text _ => []
  | .node h cs => (if h.isYield then [(around, h)] else []) ++ yields (h.tag :: around) cs

/-- The yields of a content list in document order. -/
def yields (around : List (Option String)) : List Content → List (List (Option String) × Head)
  | [] => []
  | item :: rest => yieldsItem around item ++ yields around rest

end

/-- Two yields with the same elements around them and the same name, unless the name is the value of a hole. -/
def SameYield {ι : Type} (dec dec' : ι → String) (y y' : List (Option String) × Head) : Prop :=
  y.1 = y'.1 ∧ (y.2.attrs.get? "name" = y'.2.attrs.get? "name" ∨
    ∃ i, y.2.attrs.get? "name" = some (Builder.attrValue (dec i)) ∧
      y'.2.attrs.get? "name" = some (Builder.attrValue (dec' i)))

theorem get?_closeValues {ι : Type} (attrs : List (String × (AttrValue ⊕ ι))) (name : String) :
    (∃ v, ∀ dec, Attrs.get? (closeValues dec attrs) name = v) ∨
      ∃ i, ∀ dec, Attrs.get? (closeValues dec attrs) name = some (Builder.attrValue (dec i)) := by
  have hfind (dec : ι → String) : Attrs.get? (closeValues dec attrs) name =
      (attrs.find? fun a => a.1 == name).map fun a => a.2.elim id fun i => Builder.attrValue (dec i) := by
    simp only [Attrs.get?, closeValues, List.find?_map, Option.map_map]
    rfl
  rcases hf : attrs.find? fun a => a.1 == name with _ | ⟨n, v | i⟩
  · exact .inl ⟨none, fun dec => by rw [hfind, hf]; rfl⟩
  · exact .inl ⟨some v, fun dec => by rw [hfind, hf]; rfl⟩
  · exact .inr ⟨i, fun dec => by rw [hfind, hf]; rfl⟩

mutual

/-- The yields of an item do not depend on what is read in the holes. -/
theorem sameYield_item {ι : Type} (dec dec' : ι → String) (around : List (Option String)) : (item : Open ι) →
    List.Forall₂ (SameYield dec dec') (yieldsItem around (item.close dec)) (yieldsItem around (item.close dec'))
  | .text _ => .nil
  | .node tag attrs cs => by
    have hcs := sameYield_all dec dec' (some tag :: around) cs
    by_cases hy : tag = "yield"
    · have hhead : SameYield dec dec' (around, { tag := some tag, attrs := closeValues dec attrs })
          (around, { tag := some tag, attrs := closeValues dec' attrs }) := by
        refine ⟨rfl, ?_⟩
        rcases get?_closeValues attrs "name" with ⟨v, hv⟩ | ⟨i, hi⟩
        · exact .inl (by rw [hv, hv])
        · exact .inr ⟨i, hi dec, hi dec'⟩
      simpa [Open.close, yieldsItem, Head.isYield, hy] using And.intro (hy ▸ hhead) (hy ▸ hcs)
    · simpa [Open.close, yieldsItem, Head.isYield, hy] using hcs

/-- The yields of a document do not depend on what is read in the holes. -/
theorem sameYield_all {ι : Type} (dec dec' : ι → String) (around : List (Option String)) : (doc : List (Open ι)) →
    List.Forall₂ (SameYield dec dec') (yields around (Open.closeAll dec doc)) (yields around (Open.closeAll dec' doc))
  | [] => .nil
  | item :: rest => List.rel_append (sameYield_item dec dec' around item) (sameYield_all dec dec' around rest)

end

/-! ### Rewriting -/

/-- What is read of an attribute value. -/
def readValue (cs : List Char) : String :=
  match decodeValue cs with
  | .ok v => String.ofList v
  | .error _ => ""

/-- What is read in the holes of a text. -/
def readIn {ι : Type} [DecidableEq ι] (ps : List (Part ι)) (g : ι → List Char) (i : ι) : String :=
  if i ∈ holes ps then readValue (g i) else ""

theorem fills_readIn {ι : Type} [DecidableEq ι] {ps : List (Part ι)} {g : ι → List Char}
    (hquote : ∀ i ∈ holes ps, '"' ∉ g i) (hread : ∀ i ∈ holes ps, ∃ v, decodeValue (g i) = .ok v) :
    Fills g (readIn ps g) ps := by
  intro i hi
  obtain ⟨v, hv⟩ := hread i hi
  refine ⟨hquote i hi, ?_⟩
  simp [readIn, hi, readValue, hv]

/-- A value that holds no numeral of too many digits can be read. -/
theorem decodes_of_not_longNumeral {cs text : List Char} (h : ∀ f, ¬LongNumeral text f) (hcs : cs <:+: text) :
    ∃ v, decodeValue cs = .ok v := by
  cases hv : decodeValue cs with
  | ok v => exact ⟨v, rfl⟩
  | error f =>
    have hgives := gives_decodeValueFrom cs.length cs
    rw [show decodeValueFrom cs.length cs = .error f from hv] at hgives
    exact absurd (LongNumeral.mono hgives hcs) (h f)

variable {slots : SlotMap} {source : String}

/-- **A text is read around the values that match**, if the parser finds them as values without their double quotes. -/
theorem parse_parts (hread : ReadsValues requoted none (parts false source.toList)) :
    ∃ r : Except Fault (List (Open Splice)),
      (∀ g dec, Fills g dec (parts false source.toList) →
        parse (String.ofList (writeAll g (parts false source.toList))) = r.map (Open.closeAll dec)) ∧
        ∀ doc, r = .ok doc → ∀ g dec, Fills g dec (parts false source.toList) →
          DistinctNames (String.ofList (writeAll g (parts false source.toList))) →
            ∀ s ∈ holes (parts false source.toList), s ∈ Open.holesAll doc := by
  refine parse_open (fun s hs => ⟨quote_not_mem_requoted s, ?_⟩) hread
  obtain ⟨value, hvalue⟩ := splice?_of_mem_holes hs
  exact apostrophe_mem_requoted hvalue

/-- What is put into a value has no double quote, if neither the slots nor the own text have one. -/
theorem quote_not_mem_replacementFor {s : Splice} (hown : slots.get? (String.ofList s.name) = none → '"' ∉ s.ownText)
    (hslots : ∀ slot ∈ slots, '"' ∉ (Content.flatten slot.2).toList) : '"' ∉ replacementFor slots s := by
  unfold replacementFor
  split
  · rename_i content hcontent
    exact hslots _ (SlotMap.mem_of_get? hcontent)
  · rename_i hnone
    exact hown hnone

/-- A value of a hole stands in the text. -/
theorem infix_of_mem_holes {ι : Type} {g : ι → List Char} {ps : List (Part ι)} {i : ι} (h : i ∈ holes ps) :
    g i <:+: writeAll g ps := by
  obtain ⟨rest, hx⟩ := (mem_holes (f := g)).1 h
  refine List.IsInfix.trans ?_ (Part.suffix_of_mem_values hx).isInfix
  exact ⟨['=', '"'], '"' :: rest, by simp⟩

/-- **A yield that is an element stays one**, with the same elements around it and the same name, unless the name is
itself a value that matches. -/
theorem yields_rewrite {items : List Content} (hread : ReadsValues requoted none (parts false source.toList))
    (hname : ∀ s ∈ holes (parts false source.toList), '>' ∉ s.name)
    (hown : ∀ s ∈ holes (parts false source.toList), slots.get? (String.ofList s.name) = none → '"' ∉ s.ownText)
    (hslots : ∀ slot ∈ slots, '"' ∉ (Content.flatten slot.2).toList)
    (hnumeral : ∀ f, ¬LongNumeral (rewrite slots source).toList f)
    (hparse : parse (String.ofList (writeAll requoted (parts false source.toList))) = .ok items) :
    ∃ items', parse (rewrite slots source) = .ok items' ∧
      List.Forall₂ (fun y y' => y.1 = y'.1 ∧ (y.2.textAttr? "name" = y'.2.textAttr? "name" ∨
          ∃ s ∈ holes (parts false source.toList),
            y.2.attrs.get? "name" = some (Builder.attrValue (readValue (requoted s))) ∧
              y'.2.attrs.get? "name" = some (Builder.attrValue (readValue (spliced slots s)))))
        (yields [] items) (yields [] items') := by
  obtain ⟨r, hr, -⟩ := parse_parts hread
  have hold := hr _ _ (fills_readIn (fun s _ => quote_not_mem_requoted s) fun s hs => by
    obtain ⟨rest, hx⟩ := (mem_holes (f := requoted)).1 hs
    exact (hread _ hx).decodes)
  have hnew := hr _ _ (fills_readIn (g := spliced slots)
    (fun s hs => by
      obtain ⟨value, hvalue⟩ := splice?_of_mem_holes hs
      exact quote_not_mem_spliced hvalue (hname s hs) (quote_not_mem_replacementFor (hown s hs) hslots))
    fun s hs => decodes_of_not_longNumeral hnumeral (by
      rw [rewrite_eq]
      exact infix_of_mem_holes hs))
  rw [← rewrite_eq, String.ofList_toList] at hnew
  rw [hparse] at hold
  cases r with
  | error f => cases hold
  | ok doc =>
    obtain rfl := Except.ok.inj hold
    refine ⟨_, hnew, (sameYield_all _ _ [] doc).imp ?_⟩
    rintro y y' ⟨haround, hsame | ⟨s, hs, hs'⟩⟩
    · refine ⟨haround, .inl ?_⟩
      rw [Head.textAttr?, Head.textAttr?, hsame]
    · by_cases hhole : s ∈ holes (parts false source.toList)
      · rw [readIn, if_pos hhole] at hs hs'
        exact ⟨haround, .inr ⟨s, hhole, hs, hs'⟩⟩
      · refine ⟨haround, .inl ?_⟩
        rw [readIn, if_neg hhole] at hs hs'
        rw [Head.textAttr?, Head.textAttr?, hs, hs']

/-! ### A link with two values -/

/-- A text that is not long holds no long numeral. -/
theorem not_longNumeral_of_length {cs : List Char} (h : cs.length ≤ Decimal.maxDigits) (f : Decimal.NumeralFault) :
    ¬LongNumeral cs f := by
  rintro ⟨ds, hds, -, hlong, -⟩
  have := hds.length_le
  omega

/-- A link with placeholders in two values of its tag, and one in its content. -/
def link : String :=
  "<!--c--><a href=\"/<yield name=\"s\">h</yield>\" title=\"<yield name='t'>T</yield>\"><yield name=\"b\"></yield></a>"

/-- What follows the title of the link. -/
def linkEnd : List Char := "><yield name=\"b\"></yield></a>".toList

/-- The title of the link. -/
def linkTitle : Splice := ⟨"<yield name='t'>T</yield>".toList, ['t'], ['T'], linkEnd⟩

/-- The reference of the link. -/
def linkHref : Splice :=
  ⟨"/<yield name=\"s\">h</yield>".toList, ['s'], ['h'], " title=\"".toList ++ linkTitle.value ++ '"' :: linkEnd⟩

/-- The title and what follows it, without double quotes in the value. -/
def titleText : List Char := "title".toList ++ '=' :: '"' :: (requoted linkTitle ++ '"' :: linkEnd)

/-- The attributes and what follows them, without double quotes in the values. -/
def attrsText : List Char := "href".toList ++ '=' :: '"' :: (requoted linkHref ++ '"' :: ' ' :: titleText)

theorem parts_link : parts false link.toList = "<!--c--><a href".toList.map .char ++ .value linkHref ::
    (" title".toList.map .char ++ .value linkTitle :: linkEnd.map .char) := by
  unfold link linkHref linkTitle linkEnd
  repeat rw [String.toList_ofList]
  decide +kernel

/-- The first pass comes to the tag behind the comment, and reads the attributes. -/
theorem valueAt_link {v rest : List Char} (h : AttrAt v rest true attrsText) :
    ValueAt v rest none ("<!--c--><a ".toList ++ attrsText) := by
  have hcomment : nextStep false none ("<!--c--><a ".toList ++ attrsText) =
      .ok (.go [.comment ['c']] none ('<' :: 'a' :: ' ' :: attrsText)) := by
    unfold attrsText titleText linkHref linkTitle linkEnd
    repeat rw [String.toList_ofList]
    decide +kernel
  have htag : startTag ('a' :: ' ' :: attrsText) = .ok (.whole [.startTag "a"
      [("href", "/<yield name='s'>h</yield>"), ("title", "<yield name='t'>T</yield>")] false] linkEnd.tail) := by
    unfold attrsText titleText linkHref linkTitle linkEnd
    repeat rw [String.toList_ofList]
    decide +kernel
  have hgap : tagReady ('a' :: ' ' :: attrsText) = true ∧ tagGap ('a' :: ' ' :: attrsText) = attrsText := by
    unfold attrsText titleText linkHref linkTitle linkEnd
    repeat rw [String.toList_ofList]
    decide +kernel
  exact .next hcomment (.tag (by decide) htag (by rwa [hgap.1, hgap.2]))

theorem readsValues_link : ReadsValues requoted none (parts false link.toList) := by
  have htitle : nextAttr? true titleText = some (("title".toList, requoted linkTitle), true, skipGap linkEnd) := by
    unfold titleText linkTitle linkEnd
    repeat rw [String.toList_ofList]
    decide +kernel
  have hhref : nextAttr? true attrsText = some (("href".toList, requoted linkHref), true, titleText) := by
    unfold attrsText titleText linkHref linkTitle linkEnd
    repeat rw [String.toList_ofList]
    decide +kernel
  intro x hx
  rw [parts_link] at hx ⊢
  have htext : writeAll requoted ("<!--c--><a href".toList.map .char ++ .value linkHref ::
      (" title".toList.map .char ++ .value linkTitle :: linkEnd.map .char)) = "<!--c--><a ".toList ++ attrsText := by
    unfold attrsText titleText linkHref linkTitle linkEnd
    repeat rw [String.toList_ofList]
    decide +kernel
  have hrest : writeAll requoted (" title".toList.map .char ++ .value linkTitle :: linkEnd.map .char) = ' ' :: titleText := by
    unfold titleText linkTitle linkEnd
    repeat rw [String.toList_ofList]
    decide +kernel
  rw [htext]
  refine valueAt_link ?_
  simp only [Part.values_chars_append, Part.values_value, Part.values_chars, hrest, List.mem_cons, List.not_mem_nil,
    or_false] at hx
  rcases hx with rfl | rfl
  · exact .here hhref
  · rw [Part.writeAll_chars]
    exact .next hhref (.here htitle)

/-- The document that the link is, without double quotes in the values. -/
def linkItems : List Content :=
  [.text "<!--c-->",
    .node { tag := some "a", attrs := [("href", .text "/<yield name='s'>h</yield>"), ("title", .text "<yield name='t'>T</yield>")] }
      [.node { tag := some "yield", attrs := [("name", .text "b")] } []]]

/-- The yield in the content of the link stays, with the same element around it and the same name. -/
theorem yields_rewrite_link : ∃ items' h, parse (rewrite [("s", [.text "about"])] link) = .ok items' ∧
    yields [] linkItems = [([some "a"], { tag := some "yield", attrs := [("name", .text "b")] })] ∧
    yields [] items' = [([some "a"], h)] ∧ h.textAttr? "name" = some "b" := by
  have hholes : holes (parts false link.toList) = [linkHref, linkTitle] := by
    rw [parts_link]
    simp
  have hparse : parse (String.ofList (writeAll requoted (parts false link.toList))) = .ok linkItems := by
    rw [parts_link]
    unfold parse tokens linkItems linkHref linkTitle linkEnd
    repeat rw [String.toList_ofList]
    decide +kernel
  have hlength : (rewrite [("s", [.text "about"])] link).toList.length ≤ Decimal.maxDigits := by
    unfold rewrite link
    repeat rw [String.toList_ofList]
    decide +kernel
  obtain ⟨items', hitems, hsame⟩ := yields_rewrite readsValues_link
    (by rw [hholes]; decide) (by rw [hholes]; decide) (by decide +kernel) (not_longNumeral_of_length hlength) hparse
  have hyields : yields [] linkItems = [([some "a"], { tag := some "yield", attrs := [("name", .text "b")] })] := by decide
  rw [hyields] at hsame
  obtain ⟨⟨around, h⟩, ys, ⟨rfl, hname⟩, hys, hall⟩ := List.forall₂_cons_left_iff.1 hsame
  obtain rfl := List.forall₂_nil_left_iff.1 hys
  refine ⟨items', h, hitems, hyields, hall, ?_⟩
  rcases hname with hname | ⟨s, hs, hname, -⟩
  · exact hname.symm
  · -- the name is not one of the values
    rw [hholes] at hs
    refine absurd hname ?_
    rcases (by simpa using hs : s = linkHref ∨ s = linkTitle) with rfl | rfl <;> decide +kernel

/-- A link with the names of both slots in double quotes. -/
def crowded : String :=
  "<a href=\"/<yield name=\"slug\">home</yield>\" title=\"Go <yield name=\"title\">there</yield>\">x</a>"

/-- A comment without an end, and a value that can be one. -/
def unended : String := "<!-- ><yield name=\"z\"></yield><p a=\"--<yield name='x'>>x</yield>\"></p>"

/-- **What the parser reads of the text itself, and where a comment has no end, yields are lost.**  A double quote in a
value ends it, so that what follows is taken for content; and a value may end a comment that began before it. -/
theorem yields_lost :
    ((parse crowded).map fun items => (yields [] items).map fun y => (y.1, y.2.textAttr? "name")) =
        .ok [([some "a"], some "title")] ∧
      ((parse (rewrite [("slug", [.text "about"])] crowded)).map fun items => yields [] items) = .ok [] ∧
      ((parse unended).map fun items => (yields [] items).map fun y => (y.1, y.2.textAttr? "name")) =
        .ok [([], some "z")] ∧
      ((parse (rewrite [] unended)).map fun items => yields [] items) = .ok [] := by
  unfold rewrite parse tokens crowded unended
  repeat rw [String.toList_ofList]
  decide +kernel

end AttributeSlots
end PageComposer
