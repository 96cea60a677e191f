/-
# Leaves without tags

A text leaf that is read outside of a raw element writes no tag (`tagless_of_parse`).

| read as | leaf |
| --- | --- |
| character data | text in which no angle stands and every ampersand begins a reference (`EscapedText`) |
| comment, document type, instruction, CDATA section | one literal construct again (`Whole`) |
| other marked section | an instruction with `?` at its end, one literal construct if it holds no angle |

The last row is where a tag can get through: a marked section ends at brackets, and the instruction that is written
for it ends at the first angle.
-/

import PageComposer.Proofs.Markup.Sealed

namespace PageComposer
namespace Markup

/-! ### Escaped text -/

/-- Text without tags: no angle is in it, and every ampersand begins a reference to a character that is escaped. -/
structure EscapedText (cs : List Char) : Prop where
  noOpening : '<' ∉ cs
  noClosing : '>' ∉ cs
  references : ∀ rest, '&' :: rest <:+ cs → ∃ ref ∈ ["amp;", "lt;", "gt;"], ref.toList <+: rest

theorem EscapedText.suffix {cs q : List Char} (h : EscapedText cs) (hq : q <:+ cs) : EscapedText q where
  noOpening hmem := h.noOpening (hq.subset hmem)
  noClosing hmem := h.noClosing (hq.subset hmem)
  references rest hrest := h.references rest (hrest.trans hq)

/-- A character is written as it is, or as a reference. -/
theorem escapedChar_cases (c : Char) :
    (escapedChar c = [c] ∧ c ≠ '&' ∧ c ≠ '<' ∧ c ≠ '>') ∨
      ∃ ref ∈ ["amp;", "lt;", "gt;"], escapedChar c = '&' :: ref.toList := by
  unfold escapedChar
  split
  · exact .inr ⟨"amp;", by simp, rfl⟩
  · exact .inr ⟨"lt;", by simp, rfl⟩
  · exact .inr ⟨"gt;", by simp, rfl⟩
  · rename_i hamp hopen hclose
    exact .inl ⟨rfl, hamp, hopen, hclose⟩

/-- An ampersand behind a text that has none is in what follows. -/
theorem suffix_of_not_mem {c : Char} {front cs rest : List Char} (hfront : c ∉ front) (h : c :: rest <:+ front ++ cs) :
    c :: rest <:+ cs := by
  induction front with
  | nil => exact h
  | cons d front ih =>
    rw [List.mem_cons, not_or] at hfront
    rcases List.suffix_cons_iff.1 h with he | h
    · exact absurd (List.cons.inj he).1 hfront.1
    · exact ih hfront.2 h

theorem escapedText_escaped (cs : List Char) : EscapedText (escaped cs) := by
  induction cs with
  | nil => exact ⟨List.not_mem_nil, List.not_mem_nil, fun rest h => absurd (List.suffix_nil.1 h) (List.cons_ne_nil _ _)⟩
  | cons c cs ih =>
    rw [escaped, List.flatMap_cons, ← escaped]
    rcases escapedChar_cases c with ⟨hc, hamp, hopen, hclose⟩ | ⟨ref, hmem, hc⟩
    · rw [hc, List.singleton_append]
      refine ⟨?_, ?_, fun rest h => ?_⟩
      · simp [Ne.symm hopen, ih.noOpening]
      · simp [Ne.symm hclose, ih.noClosing]
      · rcases List.suffix_cons_iff.1 h with he | h
        · exact absurd (List.cons.inj he).1.symm hamp
        · exact ih.references rest h
    · have hall : ∀ ref ∈ ["amp;", "lt;", "gt;"],
          '<' ∉ ref.toList ∧ '>' ∉ ref.toList ∧ '&' ∉ ref.toList := by decide
      have href := hall ref hmem
      rw [hc, List.cons_append]
      refine ⟨?_, ?_, fun rest h => ?_⟩
      · simp [href, ih.noOpening]
      · simp [href, ih.noClosing]
      · rcases List.suffix_cons_iff.1 h with he | h
        · exact ⟨ref, hmem, (List.cons.inj he).2 ▸ List.prefix_append ..⟩
        · exact ih.references rest (suffix_of_not_mem href.2.2 h)

theorem exists_escaped (cs : List Char) (h : EscapedText cs) : ∃ ds, cs = escaped ds := by
  match cs, h with
  | [], _ => exact ⟨[], rfl⟩
  | c :: cs, h =>
    by_cases hc : c = '&'
    · subst hc
      obtain ⟨ref, hmem, more, hmore⟩ := h.references cs List.suffix_rfl
      subst hmore
      obtain ⟨ds, rfl⟩ := exists_escaped more (h.suffix ((List.suffix_append ..).trans (List.suffix_cons ..)))
      simp only [List.mem_cons, List.not_mem_nil, or_false] at hmem
      rcases hmem with rfl | rfl | rfl
      · exact ⟨'&' :: ds, rfl⟩
      · exact ⟨'<' :: ds, rfl⟩
      · exact ⟨'>' :: ds, rfl⟩
    · obtain ⟨ds, rfl⟩ := exists_escaped cs (h.suffix (List.suffix_cons ..))
      have hplain : escapedChar c = [c] := by
        rcases escapedChar_cases c with ⟨he, -⟩ | ⟨ref, hmem, he⟩
        · exact he
        · refine escapedChar_of_not_isEscaped ?_
          have hopen : c ≠ '<' := fun he => h.noOpening (he ▸ List.mem_cons_self ..)
          have hclose : c ≠ '>' := fun he => h.noClosing (he ▸ List.mem_cons_self ..)
          simp [isEscaped, hc, hopen, hclose]
      exact ⟨c :: ds, by rw [show escaped (c :: ds) = escapedChar c ++ escaped ds from rfl, hplain]; rfl⟩
termination_by cs.length

/-- **Escaped text is what is written for characters.** -/
theorem escapedText_iff {cs : List Char} : EscapedText cs ↔ ∃ ds, cs = escaped ds :=
  ⟨exists_escaped cs, fun ⟨ds, h⟩ => h ▸ escapedText_escaped ds⟩

/-! ### Leaves outside of raw elements -/

mutual

/-- The text leaves of an item in document order, without those directly in a raw element; `raw` tells whether the
item is. -/
def plainLeavesItem (raw : Bool) : Content → List String
  | .text s => if raw then [] else [s]
  | .node h cs => plainLeaves (h.tag.any rawElements.contains) cs

/-- The text leaves of a content list, without those directly in a raw element. -/
def plainLeaves (raw : Bool) : List Content → List String
  | [] => []
  | item :: rest => plainLeavesItem raw item ++ plainLeaves raw rest

end

theorem mem_plainLeaves {raw : Bool} {s : String} {items : List Content} :
    s ∈ plainLeaves raw items ↔ ∃ item ∈ items, s ∈ plainLeavesItem raw item := by
  induction items with
  | nil => simp [plainLeaves]
  | cons item rest ih => simp [plainLeaves, ih]

/-- A leaf that writes no tag, but for an instruction that ends too soon. -/
inductive Tagless (s : String) : Prop
  | escaped (h : EscapedText s.toList)
  | literal (h : Whole s.toList)
  | instruction (cs : List Char) (h : s.toList = "<?".toList ++ cs ++ "?>".toList) (hangle : '>' ∈ cs)

/-- **A sealed literal construct is written as one**, or as an instruction that ends too soon. -/
theorem tagless_leaf {kind : Leaf} {cs : List Char} (h : kind.Sealed cs) (b : Builder) {s : String}
    (hs : b.leaf kind cs = .text s) : Tagless s := by
  obtain rfl := Content.text.inj hs
  cases kind with
  | text => exact h.elim
  | comment => exact .literal (by simpa using whole_comment h)
  | instruction => exact .literal (by simpa using whole_instruction h)
  | doctype => exact .literal (by simpa using whole_doctype h)
  | cdata => exact .literal (by simpa using whole_cdata h)
  | declaration =>
    by_cases hangle : '>' ∈ cs
    · exact .instruction cs (by simp) hangle
    · exact .literal (by simpa using @whole_instruction (cs ++ ['?']) (by simpa using hangle))

namespace Builder

/-- The text leaves in a builder, outside of raw elements, are such that `p`. -/
structure Plain (p : String → Prop) (b : Builder) : Prop where
  opened : ∀ f ∈ b.opened, ∀ s ∈ plainLeaves (rawElements.contains f.name) f.items, p s
  items : ∀ s ∈ plainLeaves false b.items, p s

variable {p : String → Prop} {b : Builder}

theorem Plain.add (hb : b.Plain p) {item : Content} (hitem : ∀ s ∈ plainLeavesItem b.isRaw item, p s) :
    (b.add item).Plain p := by
  have hcons {raw : Bool} {items : List Content} (hitem : ∀ s ∈ plainLeavesItem raw item, p s)
      (hitems : ∀ s ∈ plainLeaves raw items, p s) : ∀ s ∈ plainLeaves raw (item :: items), p s := by
    intro s hs
    rw [plainLeaves, List.mem_append] at hs
    exact hs.elim (hitem s) (hitems s)
  unfold Builder.isRaw at hitem
  unfold Builder.add
  split
  · rename_i ho
    rw [ho] at hitem
    exact ⟨ho ▸ hb.opened, hcons hitem hb.items⟩
  · rename_i f rest ho
    have hopened := hb.opened
    rw [ho] at hitem hopened
    rw [List.forall_mem_cons] at hopened
    exact ⟨List.forall_mem_cons.2 ⟨hcons hitem hopened.1, hopened.2⟩, hb.items⟩

/-- **Tags and character data keep the leaves**, if escaped text is such that `p`. -/
theorem keptByTags_plain (hp : ∀ cs, p (String.ofList (escaped cs))) : KeptByTags (Plain p) where
  data h _ _ := ⟨h.opened, h.items⟩
  text {b} h cs := by
    refine h.add fun s hs => ?_
    cases hraw : b.isRaw with
    | true => simp [leaf, plainLeavesItem, hraw] at hs
    | false =>
      obtain rfl : s = String.ofList (escaped cs) := by simpa [leaf, plainLeavesItem, hraw] using hs
      exact hp cs
  opened h name attrs := ⟨List.forall_mem_cons.2 ⟨by simp [plainLeaves], h.opened⟩, h.items⟩
  pop {b} h := by
    unfold Builder.pop
    split
    · exact h
    · rename_i f rest ho
      have hopened := h.opened
      rw [ho, List.forall_mem_cons] at hopened
      refine Plain.add (b := { b with opened := rest }) ⟨hopened.2, h.items⟩ fun s hs => hopened.1 s ?_
      obtain ⟨item, hitem, hs⟩ := mem_plainLeaves.1 (show s ∈ plainLeaves (rawElements.contains f.name) f.items.reverse from hs)
      exact mem_plainLeaves.2 ⟨item, List.mem_reverse.1 hitem, hs⟩

end Builder

/-- **No leaf that is read outside of a raw element writes a tag**, but for an instruction that ends too soon. -/
theorem tagless_of_parse {source : String} {items : List Content} (h : parse source = .ok items) :
    ∀ s ∈ plainLeaves false items, Tagless s := by
  have hescaped (cs : List Char) : Tagless (String.ofList (escaped cs)) :=
    .escaped (by rw [String.toList_ofList]; exact escapedText_escaped cs)
  have hkept := Builder.keptByTags_plain hescaped
  obtain ⟨b, hb, rfl⟩ := hkept.parse (s := source) ⟨by simp, by simp [plainLeaves]⟩ h
    fun ts hts t ht kind cs hl b hb => (hkept.flush hb).add fun s hs => by
      have hsealed := (sealed_tokens hts t ht kind cs hl).collapse b.flush
      obtain ⟨u, hu, -⟩ := Builder.leaf_eq b.flush kind (b.flush.collapse cs)
      rw [hu, plainLeavesItem] at hs
      split at hs
      · cases hs
      · obtain rfl := List.mem_singleton.1 hs
        exact tagless_leaf hsealed _ hu
  intro s hs
  obtain ⟨item, hitem, hs⟩ := mem_plainLeaves.1 hs
  exact hb.items s (mem_plainLeaves.2 ⟨item, List.mem_reverse.1 hitem, hs⟩)

end Markup
end PageComposer
