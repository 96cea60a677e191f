/-
# Text leaves

A builder makes text leaves in two ways: character data is escaped, and what else is a leaf is written with its
delimiters and ends with an angle. Below an element that is not raw there are no other leaves (`isLeaf_of_parse`),
since a leaf is made where it stands. What holds of a builder is kept by every token once it is kept by the few things
that tokens are made of (`Builder.Kept`).

| leaf | says, inside an attribute |
| --- | --- |
| character data | the characters that it was made from |
| comment, declaration, instruction | what is read of it as a value |

Leaves say in order what each of them says (`Says`), and they are closed, so an attribute value in which they are put
is read as what they say between what stands before them and behind them (`Says.decodeValue`).
-/

import PageComposer.Document.Flatten
import PageComposer.Proofs.Markup.Fresh
import PageComposer.Proofs.Markup.Seams

namespace PageComposer
namespace Markup

/-! ### What every token keeps -/

/-- The literal construct that a token is, with its text. -/
def Token.literal? : Token → Option (Leaf × List Char)
  | .comment s => some (.comment, s)
  | .instruction s => some (.instruction, s)
  | .doctype s => some (.doctype, s)
  | .marked s => if Text.lowered (s.take 6) == "cdata[".toList then some (.cdata, s.drop 6) else some (.declaration, s)
  | _ => none

namespace Builder

theorem take_literal {t : Token} {kind : Leaf} {cs : List Char} (h : t.literal? = some (kind, cs)) (b : Builder) :
    b.take t = b.literal kind cs := by
  cases t with
  | marked s =>
    simp only [Token.literal?, Builder.take] at h ⊢
    split at h
    · obtain ⟨rfl, rfl⟩ := Prod.mk.inj (Option.some.inj h)
      rw [if_pos ‹_›]
    · obtain ⟨rfl, rfl⟩ := Prod.mk.inj (Option.some.inj h)
      rw [if_neg ‹_›]
  | comment s | instruction s | doctype s =>
    obtain ⟨rfl, rfl⟩ := Prod.mk.inj (Option.some.inj h)
    rfl
  | text s | startTag name attrs closed | endTag name => cases h

/-- What a builder has is kept by tags and by character data. -/
structure KeptByTags (I : Builder → Prop) : Prop where
  data {b : Builder} (h : I b) (data : List (List Char)) (closed : List String) :
    I { b with data := data, closed := closed }
  text {b : Builder} (h : I b) (cs : List Char) : I (b.add (b.leaf .text cs))
  opened {b : Builder} (h : I b) (name : String) (attrs : Attrs) : I { b with opened := ⟨name, attrs, []⟩ :: b.opened }
  pop {b : Builder} (h : I b) : I b.pop

/-- What a builder has is kept by all that tokens are made of. -/
structure Kept (I : Builder → Prop) : Prop extends KeptByTags I where
  leaf {b : Builder} (h : I b) (kind : Leaf) (cs : List Char) : I (b.add (b.leaf kind cs))
  text h cs := leaf h .text cs

namespace KeptByTags

variable {I : Builder → Prop} {b : Builder}

theorem flush (k : KeptByTags I) (h : I b) : I b.flush := by
  unfold Builder.flush
  split
  · exact h
  · exact k.text (k.data h [] b.closed) _

theorem popThrough (k : KeptByTags I) (h : I b) (name : String) (n : Nat) : I (b.popThrough name n) := by
  induction n generalizing b with
  | zero => exact h
  | succ n ih =>
    unfold Builder.popThrough
    split
    · exact h
    · split
      · exact k.pop h
      · exact ih (k.pop h)

theorem endElement (k : KeptByTags I) (h : I b) (name : String) : I (b.endElement name) := by
  unfold Builder.endElement
  dsimp only
  split
  · exact k.popThrough (k.flush h) name _
  · exact k.flush h

theorem openElement (k : KeptByTags I) (h : I b) (name : String) (attrs : List (String × String)) :
    I (b.openElement name attrs) :=
  k.opened (k.flush h) name _

theorem take (k : KeptByTags I) (h : I b) {t : Token}
    (hliteral : ∀ kind cs, t.literal? = some (kind, cs) → I (b.literal kind cs)) : I (b.take t) := by
  rcases hl : t.literal? with _ | ⟨kind, cs⟩
  · cases t with
    | text s => exact k.data h _ b.closed
    | startTag name attrs closed =>
      have ho := k.openElement h name attrs
      cases closed with
      | true => exact k.endElement ho _
      | false =>
        unfold Builder.take
        dsimp only
        split
        · exact k.data (k.endElement ho _) _ _
        · exact ho
    | endTag name =>
      unfold Builder.take Builder.writtenEnd
      dsimp only
      split
      · exact k.data h b.data _
      · exact k.endElement h _
    | comment s | instruction s | doctype s => cases hl
    | marked s =>
      unfold Token.literal? at hl
      dsimp only at hl
      split at hl <;> exact absurd hl (Option.some_ne_none _)
  · rw [take_literal hl]
    exact hliteral kind cs hl

/-- What tags and character data keep holds when a document is read, if every literal construct keeps it. -/
theorem parse (k : KeptByTags I) (h : I {}) {s : String} {items : List Content} (hp : Markup.parse s = .ok items)
    (hliteral : ∀ ts, tokens s = .ok ts → ∀ t ∈ ts, ∀ kind cs, t.literal? = some (kind, cs) →
      ∀ {b : Builder}, I b → I (b.literal kind cs)) :
    ∃ b : Builder, I b ∧ items = b.items.reverse := by
  have hpop : ∀ (frames : List Frame) (b : Builder), I b → I (frames.foldl (fun b _ => b.pop) b) := by
    intro frames
    induction frames with
    | nil => exact fun b hb => hb
    | cons f rest ih => exact fun b hb => ih b.pop (k.pop hb)
  obtain ⟨ts, hsome, rfl⟩ := parse_eq_ok_iff.1 hp
  have hts : tokens s = .ok ts := by
    cases hread : tokens s with
    | error f =>
      rw [hread] at hsome
      cases hsome
    | ok us =>
      rw [hread] at hsome
      exact congrArg Except.ok (Option.some.inj hsome)
  have htake : ∀ us : List Token, (∀ t ∈ us, t ∈ ts) → ∀ b : Builder, I b → I (us.foldl Builder.take b) := by
    intro us
    induction us with
    | nil => exact fun _ b hb => hb
    | cons t rest ih =>
      intro hus b hb
      rw [List.forall_mem_cons] at hus
      exact ih hus.2 (b.take t) (k.take hb fun kind cs hl => hliteral ts hts t hus.1 kind cs hl hb)
  exact ⟨_, hpop _ _ (k.flush (htake ts (fun _ ht => ht) {} h)), rfl⟩

end KeptByTags

namespace Kept

variable {I : Builder → Prop} {b : Builder}

theorem literal (k : Kept I) (h : I b) (kind : Leaf) (cs : List Char) : I (b.literal kind cs) :=
  k.leaf (k.flush h) kind _

/-- **What a builder keeps holds when a document is read.** -/
theorem parse (k : Kept I) (h : I {}) {s : String} {items : List Content} (hp : Markup.parse s = .ok items) :
    ∃ b : Builder, I b ∧ items = b.items.reverse :=
  k.toKeptByTags.parse h hp fun _ _ _ _ kind cs _ _ hb => k.literal hb kind cs

end Kept
end Builder

/-! ### The leaves of an element -/

/-- A text leaf as it is made outside of raw elements. -/
def IsLeaf (s : String) : Prop := (∃ cs, s = String.ofList (escaped cs)) ∨ s.toList.getLast? = some '>'

/-- The texts among the items of an element that is not raw are such leaves. -/
def LeavesOf (name : String) (items : List Content) : Prop :=
  rawElements.contains name = false → ∀ s, .text s ∈ items → IsLeaf s

/-- The texts below every element of a document are such leaves, if it is not raw. -/
def Leaved (items : List Content) : Prop :=
  ∀ item ∈ items, ∀ h cs, .node h cs ∈ Content.nodes item → ∀ name ∈ h.tag, LeavesOf name cs

theorem mem_nodesAll {n : Content} {items : List Content} :
    n ∈ Content.nodesAll items ↔ ∃ item ∈ items, n ∈ Content.nodes item := by
  induction items with
  | nil => simp [Content.nodesAll]
  | cons item rest ih => simp [Content.nodesAll, ih]

namespace Builder

/-- The texts in a builder are such leaves. -/
structure Leaved (b : Builder) : Prop where
  opened : ∀ f ∈ b.opened, LeavesOf f.name f.items ∧ Markup.Leaved f.items
  items : Markup.Leaved b.items

/-- A leaf that is made outside of a raw element. -/
theorem leaf_eq (b : Builder) (kind : Leaf) (cs : List Char) :
    ∃ s, b.leaf kind cs = .text s ∧ (b.isRaw = false → IsLeaf s) := by
  refine ⟨_, rfl, fun hraw => ?_⟩
  cases kind with
  | text => exact .inl ⟨cs, by simp [hraw]⟩
  | _ =>
    refine .inr ?_
    simp only [String.toList_ofList, List.getLast?_append]
    rfl

theorem Leaved.add {b : Builder} (hb : b.Leaved) {item : Content}
    (hitem : ∀ f ∈ b.opened.head?, rawElements.contains f.name = false → ∀ s, item = .text s → IsLeaf s)
    (hin : Markup.Leaved [item]) : (b.add item).Leaved := by
  have hcons {items : List Content} (h : Markup.Leaved items) : Markup.Leaved (item :: items) :=
    List.forall_mem_cons.2 ⟨hin item (List.mem_singleton_self _), h⟩
  unfold Builder.add
  split
  · exact ⟨hb.opened, hcons hb.items⟩
  · rename_i f rest ho
    have hf := hb.opened
    rw [ho, List.forall_mem_cons] at hf
    refine ⟨List.forall_mem_cons.2 ⟨⟨fun hraw s hs => ?_, hcons hf.1.2⟩, hf.2⟩, hb.items⟩
    rcases List.mem_cons.1 hs with he | hs
    · exact hitem f (by simp [ho]) hraw s he.symm
    · exact hf.1.1 hraw s hs

/-- **A leaf is made where it stands**, so every token keeps them as they are made. -/
theorem kept_leaved : Kept Leaved where
  data h _ _ := ⟨h.opened, h.items⟩
  leaf {b} h kind cs := by
    obtain ⟨s, hs, hleaf⟩ := leaf_eq b kind cs
    rw [hs]
    refine h.add (fun f hf hraw t ht => ?_) (by simp [Markup.Leaved, Content.nodes])
    obtain rfl := Content.text.inj ht
    obtain ⟨rest, ho⟩ : ∃ rest, b.opened = f :: rest := List.head?_eq_some_iff.1 hf
    refine hleaf ?_
    unfold Builder.isRaw
    rw [ho]
    exact hraw
  opened h name attrs := ⟨List.forall_mem_cons.2 ⟨⟨by simp [LeavesOf], by simp [Markup.Leaved]⟩, h.opened⟩, h.items⟩
  pop {b} h := by
    unfold Builder.pop
    split
    · exact h
    · rename_i f rest ho
      have hf := h.opened
      rw [ho, List.forall_mem_cons] at hf
      have hrest : Leaved { b with opened := rest } := ⟨hf.2, h.items⟩
      refine hrest.add (fun _ _ _ s hs => by cases hs) ?_
      intro item hitem g cs hg name hname
      obtain rfl : item = close f := List.mem_singleton.1 hitem
      rcases List.mem_cons.1 hg with he | hg
      · obtain ⟨rfl, rfl⟩ := Content.node.inj he
        obtain rfl : f.name = name := Option.some.inj hname
        exact fun hraw s hs => hf.1.1 hraw s (List.mem_reverse.1 hs)
      · obtain ⟨item, hitem, hg⟩ := mem_nodesAll.1 hg
        exact hf.1.2 item (List.mem_reverse.1 hitem) g cs hg name hname

end Builder

/-- **The texts below an element that is not raw are leaves of character data or end with an angle.** -/
theorem isLeaf_of_parse {source : String} {items : List Content} (hp : parse source = .ok items) {h : Head}
    {cs : List Content} (hnode : .node h cs ∈ Content.nodesAll items) {name : String} (htag : h.tag = some name)
    (hraw : name ∉ rawElements) {s : String} (hs : .text s ∈ cs) : IsLeaf s := by
  obtain ⟨b, hb, rfl⟩ := Builder.kept_leaved.parse ⟨by simp, by simp [Leaved]⟩ hp
  obtain ⟨item, hitem, hnode⟩ := mem_nodesAll.1 hnode
  refine hb.items item (List.mem_reverse.1 hitem) h cs hnode name (by simp [htag]) ?_ s hs
  simpa using hraw

/-! ### What leaves say -/

/-- What text leaves say inside an attribute, in order. -/
inductive Says : List Content → List Char → Prop
  | nil : Says [] []
  | data {cs t : List Char} {rest : List Content} (h : Says rest t) :
      Says (.text (String.ofList (escaped cs)) :: rest) (cs ++ t)
  | literal {s : String} {v t : List Char} {rest : List Content} (hend : s.toList.getLast? = some '>')
      (hv : decodeValue s.toList = .ok v) (h : Says rest t) : Says (.text s :: rest) (v ++ t)

theorem flatten_text (s : String) (rest : List Content) :
    (Content.flatten (.text s :: rest)).toList = s.toList ++ (Content.flatten rest).toList := by
  simp [Content.flatten, Content.flattenItem]

/-- Leaves are closed. -/
theorem Says.closed {leaves : List Content} {t : List Char} (h : Says leaves t) :
    Closed (Content.flatten leaves).toList := by
  induction h with
  | nil => exact closed_of_not_mem (by simp [Content.flatten])
  | data h ih =>
    rw [flatten_text, String.toList_ofList]
    exact (closed_escaped _).append ih
  | literal hend hv h ih =>
    rw [flatten_text]
    exact (closed_of_angle hend).append ih

/-- **Leaves are read as what they say.** -/
theorem Says.decodeValue {leaves : List Content} {t : List Char} (h : Says leaves t) :
    Markup.decodeValue (Content.flatten leaves).toList = .ok t := by
  induction h with
  | nil => simp [Content.flatten]
  | data h ih =>
    rw [flatten_text, String.toList_ofList, decodeValue_escaped, ih]
    rfl
  | literal hend hv h ih =>
    rw [flatten_text, decodeValue_append (closed_of_angle hend), hv, ih]
    rfl

/-- Leaves that can be read say something. -/
theorem exists_says {leaves : List Content} (hleaves : ∀ c ∈ leaves, ∃ s, c = .text s ∧ IsLeaf s)
    (hread : ∃ v, Markup.decodeValue (Content.flatten leaves).toList = .ok v) : ∃ t, Says leaves t := by
  induction leaves with
  | nil => exact ⟨[], .nil⟩
  | cons c rest ih =>
    rw [List.forall_mem_cons] at hleaves
    obtain ⟨⟨s, rfl, hs⟩, hrest⟩ := hleaves
    obtain ⟨v, hv⟩ := hread
    rw [flatten_text] at hv
    rcases hs with ⟨cs, rfl⟩ | hend
    · rw [String.toList_ofList, decodeValue_escaped] at hv
      cases hmore : Markup.decodeValue (Content.flatten rest).toList with
      | error f =>
        rw [hmore] at hv
        cases hv
      | ok w =>
        obtain ⟨t, ht⟩ := ih hrest ⟨w, hmore⟩
        exact ⟨_, .data ht⟩
    · rw [decodeValue_append (closed_of_angle hend)] at hv
      cases hs : Markup.decodeValue s.toList with
      | error f =>
        rw [hs] at hv
        cases hv
      | ok u =>
        cases hmore : Markup.decodeValue (Content.flatten rest).toList with
        | error f =>
          rw [hs, hmore] at hv
          cases hv
        | ok w =>
          obtain ⟨t, ht⟩ := ih hrest ⟨w, hmore⟩
          exact ⟨_, .literal hend hs ht⟩

end Markup
end PageComposer
