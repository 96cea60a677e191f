/-
# Documents with holes

A document with holes (`Open`) is a document once it is said what is read in them (`Open.closeAll`). A builder that
takes tokens with holes is the same up to what is read there (`Uniform`): no operation of a builder looks at the value
of an attribute. So a text with holes is one document with holes, or is refused whatever stands in them (`parse_open`).

| operation | a hole |
| --- | --- |
| attribute put | takes the place of a value of the same name, and is lost where the name is put again (`Lasts`) |
| element opened, closed | goes with the attributes of the element |
| all others | is not touched |
-/

import PageComposer.Proofs.Markup.Holes

namespace PageComposer
namespace Markup

/-- A content item in which the values of attributes may be holes. -/
inductive Open (ι : Type) where
  | text (s : String)
  | node (tag : String) (attrs : List (String × (AttrValue ⊕ ι))) (children : List (Open ι))

variable {ι : Type}

/-- Attributes, with what is read in the holes. -/
def closeValues (dec : ι → String) (attrs : List (String × (AttrValue ⊕ ι))) : Attrs :=
  attrs.map fun a => (a.1, a.2.elim id fun i => Builder.attrValue (dec i))

namespace Open

mutual

/-- The item, with what is read in the holes. -/
def close (dec : ι → String) : Open ι → Content
  | .text s => .text s
  | .node tag attrs children => .node { tag := some tag, attrs := closeValues dec attrs } (closeAll dec children)

/-- The content list, with what is read in the holes. -/
def closeAll (dec : ι → String) : List (Open ι) → List Content
  | [] => []
  | item :: rest => close dec item :: closeAll dec rest

end

mutual

/-- The holes of an item. -/
def holes : Open ι → List ι
  | .text _ => []
  | .node _ attrs children => attrHoles attrs ++ holesAll children

/-- The holes of a content list. -/
def holesAll : List (Open ι) → List ι
  | [] => []
  | item :: rest => holes item ++ holesAll rest

end

theorem holesAll_eq_flatMap (items : List (Open ι)) : holesAll items = items.flatMap holes := by
  induction items with
  | nil => rfl
  | cons item rest ih => rw [holesAll, ih, List.flatMap_cons]

theorem mem_holesAll_reverse {i : ι} {items : List (Open ι)} : i ∈ holesAll items.reverse ↔ i ∈ holesAll items := by
  simp [holesAll_eq_flatMap]

theorem closeAll_eq_map (dec : ι → String) (items : List (Open ι)) : closeAll dec items = items.map (close dec) := by
  induction items with
  | nil => rfl
  | cons item rest ih => rw [closeAll, ih, List.map_cons]

theorem closeAll_reverse (dec : ι → String) (items : List (Open ι)) :
    closeAll dec items.reverse = (closeAll dec items).reverse := by
  rw [closeAll_eq_map, closeAll_eq_map, List.map_reverse]

end Open

/-- An open element with holes. -/
structure OpenFrame (ι : Type) where
  name : String
  attrs : List (String × (AttrValue ⊕ ι))
  items : List (Open ι)

/-- A document half read, with holes. -/
structure OpenBuilder (ι : Type) where
  opened : List (OpenFrame ι)
  items : List (Open ι)
  data : List (List Char)
  closed : List String

/-- The open element, with what is read in the holes. -/
def OpenFrame.close (dec : ι → String) (f : OpenFrame ι) : Frame :=
  ⟨f.name, closeValues dec f.attrs, Open.closeAll dec f.items⟩

/-- The document half read, with what is read in the holes. -/
def OpenBuilder.close (dec : ι → String) (b : OpenBuilder ι) : Builder :=
  ⟨b.opened.map (OpenFrame.close dec), Open.closeAll dec b.items, b.data, b.closed⟩

/-- The holes of a document half read. -/
def OpenBuilder.holes (b : OpenBuilder ι) : List ι :=
  Open.holesAll b.items ++ b.opened.flatMap fun f => attrHoles f.attrs ++ Open.holesAll f.items

/-- A builder that is the same up to what is read in the holes, with those of `H` among them. -/
def Uniform (H : ι → Prop) (F : (ι → String) → Builder) : Prop :=
  ∃ b : OpenBuilder ι, (∀ i, H i → i ∈ b.holes) ∧ F = fun dec => b.close dec

/-- A hole is the value of an attribute whose name is not written again. -/
def Lasts (i : ι) : List (String × (String ⊕ ι)) → Prop
  | [] => False
  | a :: rest => (a.2 = .inr i ∧ a.1 ∉ rest.map Prod.fst) ∨ Lasts i rest

theorem lasts_of_nodup {i : ι} {attrs : List (String × (String ⊕ ι))} (h : (attrs.map Prod.fst).Nodup)
    (hi : i ∈ attrHoles attrs) : Lasts i attrs := by
  induction attrs with
  | nil => cases hi
  | cons a attrs ih =>
    rw [List.map_cons, List.nodup_cons] at h
    obtain ⟨name, s | j⟩ := a
    · exact .inr (ih h.2 hi)
    · rcases List.mem_cons.1 (show i ∈ j :: attrHoles attrs from hi) with rfl | hi
      · exact .inl ⟨rfl, h.1⟩
      · exact .inr (ih h.2 hi)

/-- A hole is the value of an attribute of the token whose name is not written again. -/
def OpenToken.Lasts (i : ι) : OpenToken ι → Prop
  | .given _ => False
  | .startTag _ attrs _ => Markup.Lasts i attrs

namespace Uniform

variable {H : ι → Prop} {F : (ι → String) → Builder}

theorem refl (b : OpenBuilder ι) : Uniform (· ∈ b.holes) fun dec => b.close dec := ⟨b, fun _ hi => hi, rfl⟩

theorem mono {H' : ι → Prop} (h : Uniform H F) (hH : ∀ i, H' i → H i) : Uniform H' F := by
  obtain ⟨b, hb, rfl⟩ := h
  exact ⟨b, fun i hi => hb i (hH i hi), rfl⟩

theorem add (h : Uniform H F) (item : Open ι) :
    Uniform (fun i => i ∈ item.holes ∨ H i) fun dec => (F dec).add (item.close dec) := by
  obtain ⟨⟨opened, items, data, closed⟩, hb, rfl⟩ := h
  simp only [OpenBuilder.holes, List.mem_append] at hb
  rcases opened with _ | ⟨f, rest⟩
  · refine ⟨⟨[], item :: items, data, closed⟩, fun i hi => ?_, rfl⟩
    simp only [OpenBuilder.holes, Open.holesAll, List.mem_append, or_assoc]
    exact hi.imp_right (hb i)
  · refine ⟨⟨{ f with items := item :: f.items } :: rest, items, data, closed⟩, fun i hi => ?_, rfl⟩
    simp only [OpenBuilder.holes, Open.holesAll, List.flatMap_cons, List.mem_append] at hb ⊢
    rcases hi with hi | hi
    · exact .inr (.inl (.inr (.inl hi)))
    · rcases hb i hi with hi | (hi | hi) | hi
      · exact .inl hi
      · exact .inr (.inl (.inl hi))
      · exact .inr (.inl (.inr (.inr hi)))
      · exact .inr (.inr hi)

/-- Which elements are open does not depend on what is read in the holes. -/
theorem map_name_opened (b : OpenBuilder ι) (dec : ι → String) :
    (b.close dec).opened.map Frame.name = b.opened.map OpenFrame.name := by
  simp [OpenBuilder.close, OpenFrame.close, Function.comp_def]

theorem any_opened (b : OpenBuilder ι) (kind : String → Bool) (dec : ι → String) :
    (b.close dec).opened.any (fun f => kind f.name) = (b.opened.map OpenFrame.name).any kind := by
  rw [← map_name_opened b dec, List.any_map]
  rfl

/-- A leaf does not depend on what is read in the holes. -/
theorem leaf (b : OpenBuilder ι) (kind : Leaf) (cs : List Char) :
    ∃ s, ∀ dec, (b.close dec).leaf kind ((b.close dec).collapse cs) = (Open.text s).close dec := by
  obtain ⟨opened, items, data, closed⟩ := b
  have hcollapse : ∃ ds, ∀ dec, (OpenBuilder.close dec ⟨opened, items, data, closed⟩).collapse cs = ds := by
    unfold Builder.collapse
    exact ⟨_, fun dec => by rw [any_opened]⟩
  have hraw : ∃ raw, ∀ dec, (OpenBuilder.close dec ⟨opened, items, data, closed⟩).isRaw = raw := by
    rcases opened with _ | ⟨f, rest⟩
    · exact ⟨false, fun dec => rfl⟩
    · exact ⟨rawElements.contains f.name, fun dec => rfl⟩
  obtain ⟨ds, hds⟩ := hcollapse
  obtain ⟨raw, hraw⟩ := hraw
  unfold Builder.leaf
  exact ⟨_, fun dec => by rw [hds, hraw]; rfl⟩

theorem addText (h : Uniform H F) (s : String) : Uniform H fun dec => (F dec).add (.text s) :=
  (h.add (.text s)).mono fun _ hi => .inr hi

theorem flush (h : Uniform H F) : Uniform H fun dec => (F dec).flush := by
  obtain ⟨b, hb, rfl⟩ := h
  rcases hdata : b.data with _ | ⟨piece, pieces⟩
  · refine ⟨b, hb, funext fun dec => ?_⟩
    simp [Builder.flush, OpenBuilder.close, hdata]
  · obtain ⟨s, hs⟩ := leaf b .text (piece :: pieces).reverse.flatten
    have hadd := addText (H := H) ⟨{ b with data := [] }, hb, rfl⟩ s
    convert hadd using 2 with dec
    rw [show Content.text s = (Open.text s).close dec from rfl, ← hs]
    simp only [Builder.flush, OpenBuilder.close, hdata]

theorem literal (h : Uniform H F) (kind : Leaf) (cs : List Char) : Uniform H fun dec => (F dec).literal kind cs := by
  obtain ⟨b, hb, hF⟩ := h.flush
  obtain ⟨s, hs⟩ := leaf b kind cs
  have hadd := addText (H := H) ⟨b, hb, rfl⟩ s
  convert hadd using 2 with dec
  rw [Builder.literal, show (F dec).flush = b.close dec from congrFun hF dec, hs]
  rfl

theorem pop (h : Uniform H F) : Uniform H fun dec => (F dec).pop := by
  obtain ⟨⟨opened, items, data, closed⟩, hb, rfl⟩ := h
  rcases opened with _ | ⟨f, rest⟩
  · exact ⟨⟨[], items, data, closed⟩, hb, rfl⟩
  · have hholes : ∀ i, H i → i ∈ (Open.node f.name f.attrs f.items.reverse).holes ∨
        i ∈ OpenBuilder.holes ⟨rest, items, data, closed⟩ := by
      intro i hi
      have hin := hb i hi
      simp only [OpenBuilder.holes, Open.holes, List.flatMap_cons, List.mem_append, Open.mem_holesAll_reverse] at hin ⊢
      rcases hin with hin | hin | hin
      · exact .inr (.inl hin)
      · exact .inl hin
      · exact .inr (.inr hin)
    have hadd := ((refl ⟨rest, items, data, closed⟩).add (.node f.name f.attrs f.items.reverse)).mono hholes
    convert hadd using 2 with dec
    simp only [Open.close, Open.closeAll_reverse]
    rfl

theorem popThrough (h : Uniform H F) (name : String) (n : Nat) : Uniform H fun dec => (F dec).popThrough name n := by
  induction n generalizing F with
  | zero => exact h
  | succ n ih =>
    have hpop := h.pop
    have hmore := ih hpop
    obtain ⟨⟨opened, items, data, closed⟩, hb, rfl⟩ := h
    rcases opened with _ | ⟨f, rest⟩
    · exact ⟨⟨[], items, data, closed⟩, hb, rfl⟩
    · by_cases hf : (f.name == name) = true
      · convert hpop using 2 with dec
        exact if_pos hf
      · convert hmore using 2 with dec
        exact if_neg hf

theorem endElement (h : Uniform H F) (name : String) : Uniform H fun dec => (F dec).endElement name := by
  obtain ⟨b, hb, hF⟩ := h.flush
  have hflush (dec : ι → String) : (F dec).flush = b.close dec := congrFun hF dec
  have hlength (dec : ι → String) : (b.close dec).opened.length = b.opened.length := by simp [OpenBuilder.close]
  by_cases hopen : (b.opened.map OpenFrame.name).any (· == name) = true
  · have hpop := popThrough (H := H) ⟨b, hb, rfl⟩ name b.opened.length
    convert hpop using 2 with dec
    rw [Builder.endElement, hflush, any_opened b (· == name), if_pos hopen, hlength]
  · refine ⟨b, hb, funext fun dec => ?_⟩
    rw [Builder.endElement, hflush, any_opened b (· == name), if_neg hopen]

theorem writtenEnd (h : Uniform H F) (name : String) : Uniform H fun dec => (F dec).writtenEnd name := by
  have hend := h.endElement name
  obtain ⟨b, hb, rfl⟩ := h
  by_cases hclosed : b.closed.contains name = true
  · exact ⟨{ b with closed := b.closed.erase name }, hb, funext fun dec => if_pos hclosed⟩
  · convert hend using 2 with dec
    exact if_neg hclosed

/-- One attribute more: its value is there, and those with other names are kept. -/
theorem putAttr (attrs : List (String × (AttrValue ⊕ ι))) (a : String × (String ⊕ ι)) :
    ∃ attrs' : List (String × (AttrValue ⊕ ι)), (∀ i, a.2 = .inr i → (a.1, .inr i) ∈ attrs') ∧
      (∀ b ∈ attrs, b.1 ≠ a.1 → b ∈ attrs') ∧
      ∀ dec, Builder.putAttr (closeValues dec attrs) (closeAttr dec a).1 (Builder.attrValue (closeAttr dec a).2) =
        closeValues dec attrs' := by
  obtain ⟨v, hv, hhole⟩ : ∃ v : AttrValue ⊕ ι, (∀ dec : ι → String,
      Builder.attrValue (closeAttr dec a).2 = v.elim id fun i => Builder.attrValue (dec i)) ∧
      ∀ i, a.2 = .inr i → v = .inr i := by
    obtain ⟨name, s | i⟩ := a
    · exact ⟨.inl (Builder.attrValue s), fun dec => rfl, fun i hi => by cases hi⟩
    · exact ⟨.inr i, fun dec => rfl, fun j hj => by rw [Sum.inr.inj hj]⟩
  induction attrs with
  | nil =>
    refine ⟨[(a.1, v)], fun i hi => ?_, by simp, fun dec => by rw [hv]; rfl⟩
    rw [hhole i hi]
    exact List.mem_singleton_self _
  | cons b attrs ih =>
    obtain ⟨attrs', hin, hkept, hattrs⟩ := ih
    by_cases hb : (b.1 == a.1) = true
    · have hname : b.1 = a.1 := by simpa using hb
      refine ⟨(b.1, v) :: attrs, fun i hi => ?_, fun c hc hne => ?_, fun dec => ?_⟩
      · rw [hhole i hi, hname]
        exact List.mem_cons_self ..
      · rcases List.mem_cons.1 hc with rfl | hc
        · exact absurd hname hne
        · exact List.mem_cons_of_mem _ hc
      · rw [hv]
        exact if_pos hb
    · refine ⟨b :: attrs', fun i hi => List.mem_cons_of_mem _ (hin i hi), fun c hc hne => ?_,
        fun dec => (if_neg hb).trans (congrArg _ (hattrs dec))⟩
      rcases List.mem_cons.1 hc with rfl | hc
      · exact List.mem_cons_self ..
      · exact List.mem_cons_of_mem _ (hkept c hc hne)

/-- Attributes are put one after the other; a value is kept if its name is not put again. -/
theorem putAttrs (attrs : List (String × (String ⊕ ι))) (acc : List (String × (AttrValue ⊕ ι))) :
    ∃ acc' : List (String × (AttrValue ⊕ ι)), (∀ i, Lasts i attrs → i ∈ attrHoles acc') ∧
      (∀ b ∈ acc, b.1 ∉ attrs.map Prod.fst → b ∈ acc') ∧
      ∀ dec, (attrs.map (closeAttr dec)).foldl (fun acc a => Builder.putAttr acc a.1 (Builder.attrValue a.2))
        (closeValues dec acc) = closeValues dec acc' := by
  induction attrs generalizing acc with
  | nil => exact ⟨acc, fun i hi => hi.elim, fun b hb _ => hb, fun dec => rfl⟩
  | cons a attrs ih =>
    obtain ⟨put, hin, hkept, hput⟩ := putAttr acc a
    obtain ⟨acc', hlasts, hmore, hrest⟩ := ih put
    refine ⟨acc', fun i hi => ?_, fun b hb hne => ?_, fun dec => by rw [List.map_cons, List.foldl_cons, hput, hrest]⟩
    · rcases hi with ⟨ha, hname⟩ | hi
      · exact List.mem_filterMap.2 ⟨_, hmore _ (hin i ha) hname, rfl⟩
      · exact hlasts i hi
    · rw [List.map_cons, List.mem_cons, not_or] at hne
      exact hmore b (hkept b hb hne.1) hne.2

theorem openElement (h : Uniform H F) (name : String) (attrs : List (String × (String ⊕ ι))) :
    Uniform (fun i => Lasts i attrs ∨ H i) fun dec => (F dec).openElement name (attrs.map (closeAttr dec)) := by
  obtain ⟨b, hb, hF⟩ := h.flush
  obtain ⟨acc, hlasts, -, hacc⟩ := putAttrs attrs []
  refine ⟨{ b with opened := ⟨name, acc, []⟩ :: b.opened }, fun i hi => ?_, funext fun dec => ?_⟩
  · simp only [OpenBuilder.holes, List.flatMap_cons, List.mem_append] at hb ⊢
    rcases hi with hi | hi
    · exact .inr (.inl (.inl (hlasts i hi)))
    · exact (hb i hi).imp_right .inr
  · have hnil := hacc dec
    rw [show closeValues dec ([] : List (String × (AttrValue ⊕ ι))) = [] from rfl] at hnil
    rw [Builder.openElement, show (F dec).flush = b.close dec from congrFun hF dec, hnil]
    rfl

/-- **A token adds the same up to what is read in the holes.** -/
theorem take (h : Uniform H F) (t : OpenToken ι) :
    Uniform (fun i => t.Lasts i ∨ H i) fun dec => (F dec).take (t.close dec) := by
  have hopen (name : String) (attrs : List (String × (String ⊕ ι))) (closed : Bool) :
      Uniform (fun i => Lasts i attrs ∨ H i) fun dec => (F dec).take (.startTag name (attrs.map (closeAttr dec)) closed) := by
    cases closed with
    | true => exact (h.openElement name attrs).endElement name
    | false =>
      by_cases hvoid : voidWhenRead.contains name = true
      · obtain ⟨b, hb, hF⟩ := (h.openElement name attrs).endElement name
        refine ⟨{ b with closed := name :: b.closed }, hb, funext fun dec => ?_⟩
        have hdec : ((F dec).openElement name (attrs.map (closeAttr dec))).endElement name = b.close dec := congrFun hF dec
        simp only [Builder.take, if_pos hvoid, hdec]
        rfl
      · have hopened := h.openElement name attrs
        convert hopened using 2 with dec
        exact if_neg hvoid
  have hsame {G : (ι → String) → Builder} (hG : Uniform H G) {t : Token} :
      Uniform (fun i => (OpenToken.given t).Lasts i ∨ H i) G := hG.mono fun i hi => hi.resolve_left id
  rcases t with t | ⟨name, attrs, closed⟩
  · refine hsame ?_
    cases t with
    | text s =>
      obtain ⟨b, hb, rfl⟩ := h
      exact ⟨{ b with data := s :: b.data }, hb, rfl⟩
    | startTag name attrs closed =>
      have hgiven : Uniform H _ := (hopen name (attrs.map givenAttr) closed).mono fun i hi => .inr hi
      simpa [Function.comp_def, OpenToken.close] using hgiven
    | endTag name => exact h.writtenEnd name
    | comment s => exact h.literal .comment s
    | instruction s => exact h.literal .instruction s
    | doctype s => exact h.literal .doctype s
    | marked s =>
      by_cases hcdata : (Text.lowered (s.take 6) == "cdata[".toList) = true
      · have hliteral := h.literal .cdata (s.drop 6)
        convert hliteral using 2 with dec
        exact if_pos hcdata
      · have hliteral := h.literal .declaration s
        convert hliteral using 2 with dec
        exact if_neg hcdata
  · exact hopen name attrs closed

theorem foldl_take (ts : List (OpenToken ι)) (h : Uniform H F) :
    Uniform (fun i => (∃ t ∈ ts, t.Lasts i) ∨ H i) fun dec => (ts.map (OpenToken.close dec)).foldl Builder.take (F dec) := by
  induction ts generalizing H F with
  | nil => exact h.mono (by simp)
  | cons t ts ih =>
    refine (ih (h.take t)).mono fun i hi => ?_
    rcases hi with ⟨t', ht, hi⟩ | hi
    · rcases List.mem_cons.1 ht with rfl | ht
      · exact .inr (.inl hi)
      · exact .inl ⟨t', ht, hi⟩
    · exact .inr (.inr hi)

theorem pops (h : Uniform H F) {α : Type} (fs : List α) : Uniform H fun dec => fs.foldl (fun b _ => b.pop) (F dec) := by
  induction fs generalizing F with
  | nil => exact h
  | cons f fs ih => exact ih h.pop

/-- As many elements as are open are closed in the end. -/
theorem opened_pops {α : Type} (fs : List α) (b : Builder) (h : b.opened.length = fs.length) :
    (fs.foldl (fun b _ => b.pop) b).opened = [] := by
  induction fs generalizing b with
  | nil => exact List.length_eq_zero_iff.1 h
  | cons f fs ih =>
    refine ih b.pop ?_
    obtain ⟨opened, items, data, closed⟩ := b
    rcases opened with _ | ⟨g, _ | ⟨g', rest⟩⟩
    · cases h
    · simp only [List.length_cons, List.length_nil] at h
      simp only [Builder.pop, Builder.add, List.length_nil]
      omega
    · simp only [List.length_cons] at h
      simp only [Builder.pop, Builder.add, List.length_cons]
      omega

/-- **A document is the same up to what is read in the holes**, and they are in it. -/
theorem finish (h : Uniform H F) : ∃ doc : List (Open ι), (∀ i, H i → i ∈ Open.holesAll doc) ∧
    ∀ dec, (F dec).finish = Open.closeAll dec doc := by
  obtain ⟨b, hb, hF⟩ := h.flush
  obtain ⟨b', hb', hF'⟩ := pops (H := H) ⟨b, hb, rfl⟩ b.opened
  have hpops (dec : ι → String) : b.opened.foldl (fun b _ => b.pop) (b.close dec) = b'.close dec := congrFun hF' dec
  have hnone : b'.opened = [] := by
    have hopened := opened_pops b.opened (b.close fun _ => "") (by simp [OpenBuilder.close])
    rw [hpops] at hopened
    exact List.map_eq_nil_iff.1 hopened
  refine ⟨b'.items.reverse, fun i hi => ?_, fun dec => ?_⟩
  · have hin := hb' i hi
    rw [OpenBuilder.holes, hnone, List.flatMap_nil, List.append_nil] at hin
    exact Open.mem_holesAll_reverse.2 hin
  · have hfold : (b.close dec).opened.foldl (fun b _ => b.pop) (b.close dec) =
        b.opened.foldl (fun b _ => b.pop) (b.close dec) := List.foldl_map ..
    rw [Builder.finish, show (F dec).flush = b.close dec from congrFun hF dec, hfold, hpops, Open.closeAll_reverse]
    rfl

end Uniform

open PageComposer.Part (writeAll values holes mem_holes)

/-- No start tag writes the name of an attribute twice. -/
def DistinctNames (s : String) : Prop :=
  ∀ ts, tokens s = .ok ts → ∀ name attrs closed, Token.startTag name attrs closed ∈ ts → (attrs.map Prod.fst).Nodup

variable {f : ι → List Char} {ps : List (Part ι)}

/-- **A document is read around the holes of its text.**  It is the same up to what is read in them; and each of them
is the value of an attribute in it, if no start tag writes a name twice. -/
theorem parse_open (hf : ∀ i ∈ holes ps, '"' ∉ f i ∧ '\'' ∈ f i) (h : ReadsValues f none ps) :
    ∃ r : Except Fault (List (Open ι)),
      (∀ g dec, Fills g dec ps → parse (String.ofList (writeAll g ps)) = r.map (Open.closeAll dec)) ∧
        ∀ doc, r = .ok doc → ∀ g dec, Fills g dec ps → DistinctNames (String.ofList (writeAll g ps)) →
          ∀ i ∈ holes ps, i ∈ Open.holesAll doc := by
  have hnone : RawMode none := by
    intro name hname
    cases hname
  obtain ⟨r, hr, hholes⟩ := wholePass_open hf hnone h
  cases r with
  | error e =>
    refine ⟨.error e, fun g dec hg => ?_, nofun⟩
    rw [parse, tokens_eq, String.toList_ofList, hr g dec hg]
    rfl
  | ok r =>
    obtain ⟨ts, raw, left⟩ := r
    -- what the second pass adds has no holes
    cases hlater : laterTokens raw left with
    | error e =>
      refine ⟨.error e, fun g dec hg => ?_, nofun⟩
      rw [parse, tokens_eq, String.toList_ofList, hr g dec hg]
      simp only [Except.map, closeResult, bind, Except.bind, hlater]
    | ok later =>
      have htokens (g : ι → List Char) (dec : ι → String) (hg : Fills g dec ps) :
          tokens (String.ofList (writeAll g ps)) = .ok (ts.map (OpenToken.close dec) ++ later) := by
        rw [tokens_eq, String.toList_ofList, hr g dec hg]
        simp only [Except.map, closeResult, bind, Except.bind, hlater]
        rfl
      obtain ⟨doc, hdoc, hclose⟩ := ((Uniform.refl ⟨[], [], [], []⟩).foldl_take (ts ++ later.map .given)).finish
      refine ⟨.ok doc, fun g dec hg => ?_, ?_⟩
      · rw [parse, htokens g dec hg]
        simp only [Except.map, bind, Except.bind, ← hclose]
        simp [Function.comp_def, OpenToken.close, OpenBuilder.close, Open.closeAll, pure, Except.pure]
      · rintro _ ⟨⟩ g dec hg hdistinct i hi
        rw [hholes _ rfl, List.mem_flatMap] at hi
        obtain ⟨t, ht, hit⟩ := hi
        refine hdoc i (.inl ⟨t, List.mem_append_left _ ht, ?_⟩)
        cases t with
        | given t => cases hit
        | startTag name attrs closed =>
          have hnames := hdistinct _ (htokens g dec hg) name (attrs.map (closeAttr dec)) closed
            (List.mem_append_left _ (List.mem_map.2 ⟨_, ht, rfl⟩))
          rw [List.map_map] at hnames
          exact lasts_of_nodup hnames hit

end Markup
end PageComposer
