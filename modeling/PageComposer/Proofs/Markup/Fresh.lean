/-
# What is read is fresh

The nodes that reading makes are those of closed elements (`Markup.Builder.close`): no directive among them
has been dealt with and none has a mark (`Markup.fresh_parse`). A builder keeps to this with every token.
-/

import PageComposer.Markup.Tree
import PageComposer.Proofs.Document.Heads

namespace PageComposer

/-- A node as it is read. -/
def Head.Fresh (h : Head) : Prop := h.settled = false ∧ h.mark = none

/-- A document as it is read. -/
def Content.Fresh (items : List Content) : Prop := ∀ h ∈ Content.headsAll items, h.Fresh

namespace Content

theorem fresh_nil : Fresh [] := by simp [Fresh]

/-- Freshness does not depend on order. -/
theorem fresh_iff {items : List Content} : Fresh items ↔ ∀ item ∈ items, Fresh [item] := by
  induction items with
  | nil => simp [Fresh]
  | cons item rest ih =>
    rw [List.forall_mem_cons, ← ih]
    cases item with
    | text s => simp [Fresh]
    | node h cs =>
      simp only [Fresh, headsAll_node, headsAll_nil, List.append_nil, List.forall_mem_cons,
        List.forall_mem_append]
      exact ⟨fun ⟨hh, hcs, hrest⟩ => ⟨⟨hh, hcs⟩, hrest⟩, fun ⟨⟨hh, hcs⟩, hrest⟩ => ⟨hh, hcs, hrest⟩⟩

theorem fresh_cons {item : Content} {rest : List Content} (hi : Fresh [item]) (hr : Fresh rest) :
    Fresh (item :: rest) :=
  fresh_iff.2 (List.forall_mem_cons.2 ⟨hi, fresh_iff.1 hr⟩)

theorem fresh_reverse {items : List Content} (hi : Fresh items) : Fresh items.reverse :=
  fresh_iff.2 fun item hitem => fresh_iff.1 hi item (List.mem_reverse.1 hitem)

theorem fresh_text (s : String) : Fresh [.text s] := by simp [Fresh]

end Content

namespace Markup
namespace Builder

/-- Everything a builder holds is fresh. -/
structure Fresh (b : Builder) : Prop where
  opened : ∀ f ∈ b.opened, Content.Fresh f.items
  items : Content.Fresh b.items

variable {b : Builder}

theorem Fresh.add (hb : b.Fresh) {item : Content} (hi : Content.Fresh [item]) : (b.add item).Fresh := by
  unfold Builder.add
  split
  · exact ⟨hb.opened, Content.fresh_cons hi hb.items⟩
  · rename_i f rest ho
    have hf := hb.opened
    rw [ho, List.forall_mem_cons] at hf
    exact ⟨List.forall_mem_cons.2 ⟨Content.fresh_cons hi hf.1, hf.2⟩, hb.items⟩

theorem Fresh.flush (hb : b.Fresh) : b.flush.Fresh := by
  unfold Builder.flush
  split
  · exact hb
  · have hb' : Builder.Fresh { b with data := [] } := ⟨hb.opened, hb.items⟩
    exact hb'.add (Content.fresh_text _)

theorem Fresh.literal (hb : b.Fresh) (kind : Leaf) (cs : List Char) : (b.literal kind cs).Fresh :=
  hb.flush.add (Content.fresh_text _)

theorem fresh_close {f : Frame} (hf : Content.Fresh f.items) : Content.Fresh [close f] := by
  have hcs := Content.fresh_reverse hf
  intro g hg
  simp only [close, Content.headsAll_node, Content.headsAll_nil, List.append_nil, List.mem_cons] at hg
  rcases hg with rfl | hg
  · exact ⟨rfl, rfl⟩
  · exact hcs g hg

theorem Fresh.pop (hb : b.Fresh) : b.pop.Fresh := by
  unfold Builder.pop
  split
  · exact hb
  · rename_i f rest ho
    have hf := hb.opened
    rw [ho, List.forall_mem_cons] at hf
    have hb' : Builder.Fresh { b with opened := rest } := ⟨hf.2, hb.items⟩
    exact hb'.add (fresh_close hf.1)

theorem Fresh.popThrough (hb : b.Fresh) (name : String) (n : Nat) : (b.popThrough name n).Fresh := by
  induction n generalizing b with
  | zero => exact hb
  | succ n ih =>
    unfold Builder.popThrough
    split
    · exact hb
    · split
      · exact hb.pop
      · exact ih hb.pop

theorem Fresh.endElement (hb : b.Fresh) (name : String) : (b.endElement name).Fresh := by
  unfold Builder.endElement
  dsimp only
  split
  · exact hb.flush.popThrough name _
  · exact hb.flush

theorem Fresh.writtenEnd (hb : b.Fresh) (name : String) : (b.writtenEnd name).Fresh := by
  unfold Builder.writtenEnd
  split
  · exact ⟨hb.opened, hb.items⟩
  · exact hb.endElement name

theorem Fresh.openElement (hb : b.Fresh) (name : String) (attrs : List (String × String)) :
    (b.openElement name attrs).Fresh :=
  ⟨List.forall_mem_cons.2 ⟨Content.fresh_nil, hb.flush.opened⟩, hb.flush.items⟩

/-- A token keeps a builder fresh. -/
theorem Fresh.take (hb : b.Fresh) (t : Token) : (b.take t).Fresh := by
  unfold Builder.take
  split
  · exact ⟨hb.opened, hb.items⟩
  · exact (hb.openElement _ _).endElement _
  · rename_i name attrs
    have ho := hb.openElement name attrs
    dsimp only
    split
    · exact ⟨(ho.endElement name).opened, (ho.endElement name).items⟩
    · exact ho
  · exact hb.writtenEnd _
  · exact hb.literal _ _
  · exact hb.literal _ _
  · exact hb.literal _ _
  · split
    · exact hb.literal _ _
    · exact hb.literal _ _

theorem Fresh.finish (hb : b.Fresh) : Content.Fresh b.finish := by
  have go : ∀ (frames : List Frame) (b : Builder), b.Fresh →
      (frames.foldl (fun b _ => b.pop) b).Fresh := by
    intro frames
    induction frames with
    | nil => exact fun _ hb => hb
    | cons f rest ih => exact fun b hb => ih b.pop hb.pop
  exact Content.fresh_reverse (go _ _ hb.flush).items

end Builder

/-- Reading is building from the tokens of a text. -/
theorem parse_eq_ok_iff {s : String} {items : List Content} :
    parse s = .ok items ↔
      ∃ ts, (tokens s).toOption = some ts ∧ (ts.foldl Builder.take {}).finish = items := by
  unfold parse
  cases tokens s with
  | error f =>
    constructor
    · intro h
      cases h
    · rintro ⟨ts, h, _⟩
      cases h
  | ok ts =>
    constructor
    · intro h
      exact ⟨ts, rfl, Except.ok.inj h⟩
    · rintro ⟨ts', h, rfl⟩
      obtain rfl := Option.some.inj h
      rfl

/-- **What is read is fresh.** -/
theorem fresh_parse {s : String} {items : List Content} (hp : parse s = .ok items) :
    Content.Fresh items := by
  have go : ∀ (ts : List Token) (b : Builder), b.Fresh → (ts.foldl Builder.take b).Fresh := by
    intro ts
    induction ts with
    | nil => exact fun _ hb => hb
    | cons t rest ih => exact fun b hb => ih (b.take t) (hb.take t)
  obtain ⟨ts, _, rfl⟩ := parse_eq_ok_iff.1 hp
  exact (go ts {} ⟨by simp, Content.fresh_nil⟩).finish

end Markup
end PageComposer
