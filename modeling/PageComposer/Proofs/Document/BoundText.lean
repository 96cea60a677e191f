/-
# Text bound to a slot

A fragment whose placeholders in attributes are of the supported grammar, each in a value that the parser finds, takes
text for a slot into the values (`TakesText`): it is the document that it is with `x` bound to the slot, but for the
values with a placeholder of that slot, and these are read as what stands before the placeholder, what the text says,
and what stands behind it (`load_text`).

| not taken | what it would do (`text_breaks_out`) |
| --- | --- |
| text with a double quote | end the value |
| text behind the beginning of a reference | go on with it |

What the text says is what its leaves say (`Says`): the characters of character data, whatever they are.
-/

import PageComposer.Expansion.Fragment
import PageComposer.Proofs.Document.Elements
import PageComposer.Proofs.Markup.Leaves

namespace PageComposer
namespace AttributeSlots

open Markup
open PageComposer.Part (writeAll holes)

/-- A text that stands for any. -/
def sampleText : List Content := [.text "x"]

/-- A fragment that takes text for a slot into its values: each match is a value of an attribute to which the parser
comes, and of the supported grammar; what stands before a placeholder of the slot ends with no beginning of a
reference; and with `x` bound to the slot the values hold no double quote and can be read. -/
structure TakesText (slots : SlotMap) (name source : String) (embedded : Splice → Embedded) : Prop where
  read : ReadsValues requoted none (parts false source.toList)
  supported : ∀ s ∈ holes (parts false source.toList), (embedded s).Supported ∧ (embedded s).splice s.rest = s
  closed : ∀ s ∈ holes (parts false source.toList), String.ofList s.name = name → Closed (embedded s).before
  quotes : ∀ s ∈ holes (parts false source.toList), '"' ∉ replacementFor (slots.bind name sampleText) s
  values : ∀ s ∈ holes (parts false source.toList), ∃ v, decodeValue (spliced (slots.bind name sampleText) s) = .ok v

variable {slots : SlotMap} {name source : String} {embedded : Splice → Embedded}

namespace TakesText

variable (h : TakesText slots name source embedded) {s : Splice}
include h

/-- What a match becomes. -/
theorem spliced_eq (hs : s ∈ holes (parts false source.toList)) (slots' : SlotMap) :
    spliced slots' s = (embedded s).before ++ (replacementFor slots' s ++ (embedded s).after) := by
  obtain ⟨hsupported, he⟩ := h.supported s hs
  have hspliced := hsupported.spliced slots' s.rest
  rw [he] at hspliced
  rw [hspliced, ← show replacementFor slots' ((embedded s).splice s.rest) = (embedded s).replacement slots' from rfl, he]

/-- Values with something else put in hold no double quote. -/
theorem quote_not_mem (hs : s ∈ holes (parts false source.toList)) {slots' : SlotMap}
    (hq : '"' ∉ replacementFor slots' s) : '"' ∉ spliced slots' s := by
  have hsupported := (h.supported s hs).1
  rw [h.spliced_eq hs, List.mem_append, List.mem_append, not_or, not_or]
  exact ⟨hsupported.before_quote, hq, hsupported.after_quote⟩

/-- What stands before the placeholder and behind it can be read. -/
theorem decodes (hs : s ∈ holes (parts false source.toList)) (hname : String.ofList s.name = name) :
    ∃ before after, decodeValue (embedded s).before = .ok before ∧ decodeValue (embedded s).after = .ok after ∧
      decodeValue (spliced (slots.bind name sampleText) s) = .ok (before ++ 'x' :: after) := by
  obtain ⟨v, hv⟩ := h.values s hs
  have hx : replacementFor (slots.bind name sampleText) s = ['x'] := by
    rw [replacementFor, SlotMap.get?_bind, if_pos (by simp [hname])]
    rfl
  rw [h.spliced_eq hs, hx, decodeValue_append (h.closed s hs hname), List.singleton_append,
    decodeValue_cons (by decide)] at hv ⊢
  cases hbefore : decodeValue (embedded s).before with
  | error f =>
    rw [hbefore] at hv
    cases hv
  | ok before =>
    cases hafter : decodeValue (embedded s).after with
    | error f =>
      rw [hbefore, hafter] at hv
      cases hv
    | ok after => exact ⟨before, after, rfl, rfl, rfl⟩

/-- **The value is read as what stands before the placeholder, what the text says, and what stands behind it.** -/
theorem decodeValue_text (hs : s ∈ holes (parts false source.toList)) (hname : String.ofList s.name = name)
    {leaves : List Content} {t before after : List Char} (ht : Says leaves t)
    (hbefore : decodeValue (embedded s).before = .ok before) (hafter : decodeValue (embedded s).after = .ok after) :
    decodeValue (spliced (slots.bind name leaves) s) = .ok (before ++ (t ++ after)) := by
  have htext : replacementFor (slots.bind name leaves) s = (Content.flatten leaves).toList := by
    rw [replacementFor, SlotMap.get?_bind, if_pos (by simp [hname])]
  rw [h.spliced_eq hs, htext, decodeValue_append (h.closed s hs hname), hbefore, decodeValue_append ht.closed,
    ht.decodeValue, hafter]
  rfl

end TakesText

/-- Loading is reading, rewriting and parsing. -/
theorem load_eq {fs : Fragments} {w : FileTree} {src : String} (hsource : fs.read w src = .ok source)
    (slots : SlotMap) : fs.load w src slots = (parse (rewrite slots source)).mapError FragmentFault.markup := by
  simp only [Fragments.load, hsource, bind, Except.bind]
  cases parse (rewrite slots source) <;> rfl

/-- **Text bound to a slot stays in the values that it is put into.**  The fragment is the same as with `x` bound to the
slot, but for these values, and each of them is what stands before the placeholder, what the text says, and what stands
behind it. -/
theorem load_text {fs : Fragments} {w : FileTree} {src caller : String} {doc leaves : List Content} {head : Head}
    (hsource : fs.read w src = .ok source) (h : TakesText slots name source embedded)
    (hcaller : parse caller = .ok doc) (hnode : .node head leaves ∈ Content.nodesAll doc)
    (hyield : head.isYield = true) (htexts : ∀ c ∈ leaves, ∃ s, c = .text s)
    (hquote : '"' ∉ (Content.flatten leaves).toList)
    (htext : ∃ v, decodeValue (Content.flatten leaves).toList = .ok v) :
    ∃ (r : Except FragmentFault (List (Open Splice))) (dec dec' : Splice → String) (t : List Char),
      Says leaves t ∧
      fs.load w src (slots.bind name sampleText) = r.map (Open.closeAll dec) ∧
      fs.load w src (slots.bind name leaves) = r.map (Open.closeAll dec') ∧
      (∀ s ∈ holes (parts false source.toList), String.ofList s.name ≠ name → dec' s = dec s) ∧
      (∀ s ∈ holes (parts false source.toList), String.ofList s.name = name → ∃ before after,
        decodeValue (embedded s).before = .ok before ∧ decodeValue (embedded s).after = .ok after ∧
          dec s = String.ofList (before ++ 'x' :: after) ∧ dec' s = String.ofList (before ++ (t ++ after))) ∧
      (DistinctNames (rewrite (slots.bind name sampleText) source) → ∀ items, r = .ok items →
        ∀ s ∈ holes (parts false source.toList), s ∈ Open.holesAll items) := by
  obtain ⟨t, ht⟩ : ∃ t, Says leaves t := by
    refine exists_says (fun c hc => ?_) htext
    obtain ⟨s, rfl⟩ := htexts c hc
    have htag : head.tag = some "yield" := by simpa [Head.isYield] using hyield
    exact ⟨s, rfl, isLeaf_of_parse hcaller hnode htag (by decide) hc⟩
  obtain ⟨r, hr, hholes⟩ := parse_parts h.read
  -- matches of other slots become the same
  have hother : ∀ s ∈ holes (parts false source.toList), String.ofList s.name ≠ name →
      replacementFor (slots.bind name leaves) s = replacementFor (slots.bind name sampleText) s := by
    intro s hs hne
    have hn : ¬(name == String.ofList s.name) = true := by simpa using Ne.symm hne
    rw [replacementFor, replacementFor, SlotMap.get?_bind, SlotMap.get?_bind, if_neg hn, if_neg hn]
  have hfill : Fills (spliced (slots.bind name sampleText))
      (readIn (parts false source.toList) (spliced (slots.bind name sampleText))) (parts false source.toList) :=
    fills_readIn (fun s hs => h.quote_not_mem hs (h.quotes s hs)) h.values
  have hfill' : Fills (spliced (slots.bind name leaves))
      (readIn (parts false source.toList) (spliced (slots.bind name leaves))) (parts false source.toList) := by
    refine fills_readIn (fun s hs => h.quote_not_mem hs ?_) fun s hs => ?_
    · by_cases hname : String.ofList s.name = name
      · rw [replacementFor, SlotMap.get?_bind, if_pos (by simp [hname])]
        exact hquote
      · rw [hother s hs hname]
        exact h.quotes s hs
    · by_cases hname : String.ofList s.name = name
      · obtain ⟨before, after, hbefore, hafter, -⟩ := h.decodes hs hname
        exact ⟨_, h.decodeValue_text hs hname ht hbefore hafter⟩
      · rw [h.spliced_eq hs, hother s hs hname, ← h.spliced_eq hs]
        exact h.values s hs
  have hload {slots' : SlotMap} {dec : Splice → String} (hf : Fills (spliced slots') dec (parts false source.toList)) :
      fs.load w src slots' = (r.mapError FragmentFault.markup).map (Open.closeAll dec) := by
    rw [load_eq hsource, ← String.ofList_toList (s := rewrite slots' source), rewrite_eq, hr _ _ hf]
    cases r <;> rfl
  refine ⟨r.mapError FragmentFault.markup, _, _, t, ht, hload hfill, hload hfill', fun s hs hne => ?_, fun s hs hname => ?_,
    fun hdistinct items hitems => ?_⟩
  · rw [readIn, readIn, if_pos hs, if_pos hs, h.spliced_eq hs, h.spliced_eq hs, hother s hs hne]
  · obtain ⟨before, after, hbefore, hafter, hx⟩ := h.decodes hs hname
    refine ⟨before, after, hbefore, hafter, ?_, ?_⟩
    · rw [readIn, if_pos hs, readValue, hx]
    · rw [readIn, if_pos hs, readValue, h.decodeValue_text hs hname ht hbefore hafter]
  · cases r with
    | error f => cases hitems
    | ok doc =>
      obtain rfl := Except.ok.inj hitems
      refine hholes doc rfl _ _ hfill ?_
      rwa [← rewrite_eq, String.ofList_toList]

/-! ### A card with a slot in its class -/

/-- The class of the card. -/
def cardClass : Embedded :=
  ⟨"class".toList, "b ".toList, " ".toList, '"', "k".toList, [], "p".toList, " w".toList⟩

/-- What follows the class. -/
def cardEnd : List Char := ">t</i>".toList

/-- A card that asks for a kind. -/
def card : String := "<i class=\"b <yield name=\"k\">p</yield> w\">t</i>"

/-- A card with an ampersand before its placeholder. -/
def amid : String := "<i class=\"&<yield name='k'></yield>\">t</i>"

/-- A project with both. -/
def cardFiles : FileTree :=
  { FileTree.ofEntries [(["src"], .directory), (["src", "card"], .file ⟨card.toUTF8.toList, 0, 0⟩),
      (["src", "amid"], .file ⟨amid.toUTF8.toList, 0, 1⟩)] with fresh := 2 }

/-- Where the fragments of the project are. -/
def cardFragments : Fragments := { root := ⟨"/", ["src"]⟩ }

/-- A document that binds the kind. -/
def cardCaller : String := "<yield name=\"k\">A &amp;&#60; B<!--&gt;--></yield>"

/-- The leaves that are bound. -/
def cardLeaves : List Content := [.text "A &amp;&lt; B", .text "<!--&gt;-->"]

/-- The document, as it is read. -/
def cardDocument : List Content := [.node { tag := some "yield", attrs := [("name", .text "k")] } cardLeaves]

theorem read_card : cardFragments.read cardFiles "card" = .ok card ∧ cardFragments.read cardFiles "amid" = .ok amid := by
  decide +kernel

theorem parts_card :
    parts false card.toList = "<i class".toList.map .char ++ .value (cardClass.splice cardEnd) :: cardEnd.map .char := by
  unfold card cardClass cardEnd
  repeat rw [String.toList_ofList]
  decide +kernel

theorem supported_cardClass : cardClass.Supported :=
  ⟨(Embedded.wellFormed_iff _).2 (by decide +kernel), fun hq => absurd hq (by decide)⟩

/-- The card takes text into its class. -/
theorem takesText_card : TakesText [] "k" card fun _ => cardClass := by
  have hholes : holes (parts false card.toList) = [cardClass.splice cardEnd] := by
    rw [parts_card]
    simp
  refine ⟨?_, ?_, ?_, ?_, ?_⟩
  · have hnext : nextAttr? true ("class".toList ++ '=' :: '"' :: (requoted (cardClass.splice cardEnd) ++ '"' :: cardEnd)) =
        some (("class".toList, requoted (cardClass.splice cardEnd)), true, skipGap cardEnd) := by
      unfold cardClass cardEnd
      repeat rw [String.toList_ofList]
      decide +kernel
    have htag : startTag ('i' :: ' ' :: ("class".toList ++ '=' :: '"' :: (requoted (cardClass.splice cardEnd) ++
        '"' :: cardEnd))) = .ok (.whole [.startTag "i" [("class", "b <yield name='k'>p</yield> w")] false] cardEnd.tail) := by
      unfold cardClass cardEnd
      repeat rw [String.toList_ofList]
      decide +kernel
    intro x hx
    rw [parts_card] at hx ⊢
    simp only [Part.values_chars_append, Part.values_value, Part.values_chars, List.mem_singleton] at hx
    subst hx
    rw [Part.writeAll_append, Part.writeAll_chars, Part.writeAll_value, Part.writeAll_chars]
    exact .tag (by decide) htag (.here hnext)
  all_goals
    rw [hholes]
    intro s hs
    obtain rfl := List.mem_singleton.1 hs
  · exact ⟨supported_cardClass, rfl⟩
  · exact fun _ => closed_of_not_mem (by decide)
  · decide +kernel
  · rw [show spliced (SlotMap.bind [] "k" sampleText) (cardClass.splice cardEnd) = "b x w".toList by decide +kernel]
    exact ⟨"b x w".toList, by decide +kernel⟩

/-- The card with the sample text, as it is read. -/
theorem tokens_card : tokens (rewrite [("k", sampleText)] card) =
    .ok [.startTag "i" [("class", "b x w")] false, .text ['t'], .endTag "i"] := by
  have hrewrite : rewrite [("k", sampleText)] card = "<i class=\"b x w\">t</i>" := by
    unfold rewrite card
    repeat rw [String.toList_ofList]
    decide +kernel
  rw [hrewrite]
  decide +kernel

/-- The text that is bound is in the class, between what stands before it and behind it. -/
theorem load_text_card : ∃ (items : List (Open Splice)) (dec : Splice → String),
    cardFragments.load cardFiles "card" [("k", cardLeaves)] = .ok (Open.closeAll dec items) ∧
      cardClass.splice cardEnd ∈ Open.holesAll items ∧
      dec (cardClass.splice cardEnd) = "b A &< B<!-->--> w" := by
  have hcaller : parse cardCaller = .ok cardDocument := by
    unfold parse tokens cardCaller cardDocument cardLeaves
    repeat rw [String.toList_ofList]
    decide +kernel
  have hnode : .node { tag := some "yield", attrs := [("name", .text "k")] } cardLeaves ∈ Content.nodesAll cardDocument :=
    List.mem_cons_self ..
  have hread : decodeValue (Content.flatten cardLeaves).toList = .ok "A &< B<!-->-->".toList := by decide +kernel
  obtain ⟨r, dec, dec', t, ht, hx, hload, -, hvalue, hholes⟩ := load_text read_card.1 takesText_card hcaller hnode (by decide)
    (by simp [cardLeaves]) (by decide +kernel) ⟨_, hread⟩
  obtain rfl : "A &< B<!-->-->".toList = t := Except.ok.inj (hread.symm.trans ht.decodeValue)
  have hin : cardClass.splice cardEnd ∈ holes (parts false card.toList) := by
    rw [parts_card]
    simp
  obtain ⟨before, after, hbefore, hafter, -, hclass⟩ := hvalue _ hin rfl
  have hbefore' : decodeValue cardClass.before = .ok "b ".toList := by decide +kernel
  have hafter' : decodeValue cardClass.after = .ok " w".toList := by decide +kernel
  obtain rfl := Except.ok.inj (hbefore'.symm.trans hbefore)
  obtain rfl := Except.ok.inj (hafter'.symm.trans hafter)
  -- the card is read, and its tag has no name twice
  have hdistinct : DistinctNames (rewrite (SlotMap.bind [] "k" sampleText) card) := by
    intro ts hts name attrs closed hmem
    obtain rfl := Except.ok.inj (tokens_card.symm.trans hts)
    obtain ⟨-, rfl, -⟩ : _ ∧ attrs = [("class", "b x w")] ∧ _ := by simpa using hmem
    simp
  cases r with
  | error f =>
    rw [load_eq read_card.1, parse, show SlotMap.bind [] "k" sampleText = [("k", sampleText)] from rfl, tokens_card] at hx
    cases hx
  | ok items => exact ⟨items, dec', hload, hholes hdistinct items rfl _ hin, hclass.trans (by decide +kernel)⟩

/-- **Text with a double quote ends the value, and text behind an ampersand makes a reference with it.**  A quote is
no part of markup in a text leaf, so the parser leaves it as it is. -/
theorem text_breaks_out :
    parse "<yield name='k'>a&quot; id=&quot;b</yield>" =
        .ok [.node { tag := some "yield", attrs := [("name", .text "k")] } [.text "a\" id=\"b"]] ∧
      cardFragments.load cardFiles "card" [("k", [.text "x"])] =
        .ok [.node { tag := some "i", attrs := [("class", .text "b x w")] } [.text "t"]] ∧
      cardFragments.load cardFiles "card" [("k", [.text "a\" id=\"b"])] =
        .ok [.node { tag := some "i", attrs := [("class", .text "b a"), ("id", .text "b w")] } [.text "t"]] ∧
      parse "<yield name='k'>lt;</yield>" =
        .ok [.node { tag := some "yield", attrs := [("name", .text "k")] } [.text "lt;"]] ∧
      decodeValue "&".toList = .ok "&".toList ∧ decodeValue "lt;".toList = .ok "lt;".toList ∧
      cardFragments.load cardFiles "amid" [("k", [.text "lt;"])] =
        .ok [.node { tag := some "i", attrs := [("class", .text "<")] } [.text "t"]] := by
  rw [load_eq read_card.1, load_eq read_card.1, load_eq read_card.2]
  unfold rewrite parse tokens card amid
  repeat rw [String.toList_ofList]
  decide +kernel

end AttributeSlots
end PageComposer
