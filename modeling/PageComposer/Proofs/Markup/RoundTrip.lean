/-
# Documents are read as they are written

The two halves of the proof meet at the tokens of a document in normal form (`Spells`): a tag for each
element and another where it ends, a comment for each comment leaf, and character data in any number of
pieces for each text leaf. What is written is cut into such tokens (`exists_spells`), and from such tokens the
document is built (`Spells.build`).

Writing and reading do not agree on the elements without content: an element may be written with an end tag
that the reader has no use for, and another without the end tag that the reader waits for. The names of closed
elements that a builder holds tell the two apart, and they are names of void elements only.
-/

import PageComposer.Proofs.Markup.Lexing

namespace PageComposer
namespace Markup

/-! ### Tokens of a document -/

/-- `ts` are tokens of the document `items`, which is in normal form. -/
inductive Spells : List Token → List Content → Prop
  | nil : Spells [] []
  | text {cs : List Char} {pieces : List (List Char)} {ts : List Token} {rest : List Content} (hcs : cs ≠ [])
      (hkept : KeptRun cs) (hpieces : pieces.flatten = cs) (hsep : startsWithText rest = false)
      (hrest : Spells ts rest) : Spells (pieces.map .text ++ ts) (.text (textLeaf cs) :: rest)
  | comment {cs : List Char} {ts : List Token} {rest : List Content} (hcs : KeptComment cs)
      (hrest : Spells ts rest) : Spells (.comment cs :: ts) (.text (commentLeaf cs) :: rest)
  | void {tag : String} {attrs : Attrs} {ends ts : List Token} {rest : List Content}
      (he : WrittenElement tag attrs []) (hv : tag ∈ voidWhenRead)
      (hends : ends = [] ∨ ends = [.endTag tag]) (hrest : Spells ts rest) :
      Spells (.startTag tag (tokenAttrs attrs) false :: (ends ++ ts))
        (.node { tag := some tag, attrs := attrs } [] :: rest)
  | element {tag : String} {attrs : Attrs} {inner ts : List Token} {cs rest : List Content}
      (he : WrittenElement tag attrs cs) (hv : tag ∉ voidWhenRead) (hcs : Spells inner cs)
      (hrest : Spells ts rest) :
      Spells (.startTag tag (tokenAttrs attrs) false :: (inner ++ .endTag tag :: ts))
        (.node { tag := some tag, attrs := attrs } cs :: rest)

/-- A written element begins with `<`. -/
theorem startTagText_cons (tag : String) (attrs : Attrs) (rest : List Char) :
    ∃ cs, (startTagText tag attrs).toList ++ rest = '<' :: cs :=
  ⟨_, startTagText_toList tag attrs rest⟩

/-- Behind a text leaf a tag or a comment begins, or nothing follows. -/
theorem boundary_of_joined {items : List Content} (hj : Joined items) (hs : startsWithText items = false)
    {more : List Char} (hmore : Boundary more) : Boundary ((render items).toList ++ more) := by
  cases hj with
  | nil => simpa using hmore
  | @text cs => simp [startsWithText, isLiteral_textLeaf] at hs
  | @comment cs rest => exact .inr ⟨_, by simp [commentLeaf]; rfl⟩
  | @element tag attrs cs rest he =>
    by_cases hv : tag ∈ voidWhenWritten
    · obtain rfl := he.void (voidWhenWritten_subset hv)
      rw [render_void rfl hv, String.toList_append, List.append_assoc]
      exact .inr (startTagText_cons ..)
    · rw [render_element rfl hv]
      simp only [String.toList_append, List.append_assoc]
      exact .inr (startTagText_cons ..)

/-- **A document in normal form is written as its tokens.** -/
theorem exists_spells {items : List Content} (hj : Joined items) (hr : RunsKept items) {more : List Char}
    {ms : List Token} (hmore : Boundary more) (hlex : Lexes more ms) :
    ∃ ts, Spells ts items ∧ Lexes ((render items).toList ++ more) (ts ++ ms) := by
  induction hj generalizing more ms with
  | nil => exact ⟨[], .nil, hlex⟩
  | @text cs rest hcs hsep hrest ih =>
    rw [runsKept_text] at hr
    obtain ⟨ts, hts, hl⟩ := ih hr.2 hmore hlex
    obtain ⟨pieces, hpieces, hl⟩ := lexes_text cs (boundary_of_joined hrest hsep hmore) hl
    refine ⟨_, .text hcs (hr.1 cs rfl) hpieces hsep hts, ?_⟩
    simpa [textLeaf] using hl
  | @comment cs rest hcs hrest ih =>
    rw [runsKept_text] at hr
    obtain ⟨ts, hts, hl⟩ := ih hr.2 hmore hlex
    refine ⟨_, .comment hcs hts, ?_⟩
    rw [render_text, String.toList_append, List.append_assoc]
    exact .comment hcs.noAngle hl
  | @element tag attrs cs rest he hj hrest ihc ih =>
    rw [runsKept_node] at hr
    obtain ⟨ts, hts, hl⟩ := ih hr.2 hmore hlex
    by_cases hw : tag ∈ voidWhenWritten
    · have hv := voidWhenWritten_subset hw
      obtain rfl := he.void hv
      refine ⟨_, .void he hv (.inl rfl) hts, ?_⟩
      rw [render_void rfl hw, String.toList_append, List.append_assoc]
      exact .startTag he.name he.notRaw he.attrs.read hl
    · obtain ⟨inner, hinner, hl⟩ := ihc hr.1 (.inr ⟨_, rfl⟩) (hl.endTag he.name)
      have hall := hl.startTag he.name he.notRaw he.attrs.read
      have hchars : (render (.node { tag := some tag, attrs := attrs } cs :: rest)).toList ++ more =
          (startTagText tag attrs).toList ++ ((render cs).toList ++
            '<' :: '/' :: (tag.toList ++ '>' :: ((render rest).toList ++ more))) := by
        rw [render_element rfl hw]
        simp
      rw [hchars]
      by_cases hv : tag ∈ voidWhenRead
      · obtain rfl := he.void hv
        cases hinner
        exact ⟨_, .void he hv (.inr rfl) hts, hall⟩
      · exact ⟨_, .element he hv hinner hts, by simpa using hall⟩

/-! ### Building -/

namespace Builder

/-- A builder with more items in its innermost open element. -/
def put (b : Builder) (items : List Content) : Builder :=
  match b.opened with
  | [] => { b with items := items.reverse ++ b.items }
  | f :: rest => { b with opened := { f with items := items.reverse ++ f.items } :: rest }

/-- A builder with one more element open. -/
def push (b : Builder) (f : Frame) : Builder := { b with opened := f :: b.opened }

/-- A builder that reads a document in normal form: it waits for the end tags of void elements alone, and no
raw element is open. -/
structure Ready (b : Builder) : Prop where
  closed : b.closed ⊆ voidWhenRead
  opened : ∀ f ∈ b.opened, f.name ∉ rawElements

theorem put_nil (b : Builder) : b.put [] = b := by
  obtain ⟨opened, items, data, closed⟩ := b
  cases opened <;> rfl

theorem put_cons (b : Builder) (item : Content) (items : List Content) :
    b.put (item :: items) = (b.add item).put items := by
  obtain ⟨opened, _, _, _⟩ := b
  cases opened <;> simp [put, add]

/-- What is waited for has no effect on items. -/
theorem put_closed (b : Builder) (items : List Content) (closed : List String) :
    { b with closed := closed }.put items = { b.put items with closed := closed } := by
  obtain ⟨opened, _, _, _⟩ := b
  cases opened <;> rfl

@[simp] theorem data_add (b : Builder) (item : Content) : (b.add item).data = b.data := by
  obtain ⟨opened, _, _, _⟩ := b
  cases opened <;> rfl

@[simp] theorem closed_add (b : Builder) (item : Content) : (b.add item).closed = b.closed := by
  obtain ⟨opened, _, _, _⟩ := b
  cases opened <;> rfl

/-- The items of an element that was opened go into it. -/
theorem put_push (b : Builder) (f : Frame) (items : List Content) :
    (b.push f).put items = b.push { f with items := items.reverse ++ f.items } := rfl

theorem flush_of_data {b : Builder} (h : b.data = []) : b.flush = b := by
  simp [flush, h]

@[simp] theorem data_flush (b : Builder) : b.flush.data = [] := by
  unfold flush
  split
  · assumption
  · simp

@[simp] theorem closed_flush (b : Builder) : b.flush.closed = b.closed := by
  unfold flush
  split
  · rfl
  · simp

theorem Ready.add {b : Builder} (hb : b.Ready) (item : Content) : (b.add item).Ready := by
  obtain ⟨opened, _, _, _⟩ := b
  obtain ⟨hclosed, hopened⟩ := hb
  cases opened with
  | nil => exact ⟨hclosed, hopened⟩
  | cons f fs => exact ⟨hclosed, List.forall_mem_cons.2 (List.forall_mem_cons.1 hopened)⟩

theorem Ready.flush {b : Builder} (hb : b.Ready) : b.flush.Ready := by
  unfold Builder.flush
  split
  · exact hb
  · exact Ready.add (b := { b with data := [] }) ⟨hb.closed, hb.opened⟩ _

/-- Text directly in an element of a document in normal form is escaped. -/
theorem Ready.isRaw {b : Builder} (hb : b.Ready) : b.isRaw = false := by
  obtain ⟨opened, _, _, _⟩ := b
  cases opened with
  | nil => rfl
  | cons f fs => simpa [Builder.isRaw] using hb.opened f (List.mem_cons_self ..)

theorem collapse_kept {cs : List Char} (h : KeptRun cs) (b : Builder) : b.collapse cs = cs := by
  unfold collapse
  rcases h with h | rfl | rfl
  · simp [h]
  · split <;> rfl
  · split <;> rfl

/-- Character data that is kept becomes a text leaf. -/
theorem flush_kept {b : Builder} (hb : b.Ready) (hdata : b.data = []) {pieces : List (List Char)}
    (hne : pieces.flatten ≠ []) (hkept : KeptRun pieces.flatten) :
    { b with data := pieces.reverse }.flush = b.add (.text (textLeaf pieces.flatten)) := by
  have hpieces : pieces.reverse ≠ [] := by
    intro h
    rw [List.reverse_eq_nil_iff.1 h] at hne
    exact hne rfl
  have hraw := hb.isRaw
  obtain ⟨opened, items, data, closed⟩ := b
  obtain rfl : data = [] := hdata
  unfold flush
  split
  · exact absurd ‹_› hpieces
  · simp only [List.reverse_reverse, collapse_kept hkept, leaf]
    rw [if_neg (by simpa [isRaw] using hraw)]
    rfl

/-- A comment that is kept becomes a comment leaf. -/
theorem take_comment {b : Builder} {cs : List Char} (hcs : KeptComment cs) :
    b.take (.comment cs) = b.flush.add (.text (commentLeaf cs)) := by
  have hleaf : String.ofList ("<!--".toList ++ cs ++ "-->".toList) = commentLeaf cs := by
    rw [commentLeaf, String.ofList_append, String.ofList_append, String.ofList_toList, String.ofList_toList]
  simp only [take, literal, collapse_kept (.inl hcs.notBlank), leaf, hleaf]

theorem foldl_take_text (pieces : List (List Char)) (b : Builder) :
    (pieces.map Token.text).foldl take b = { b with data := pieces.reverse ++ b.data } := by
  induction pieces generalizing b with
  | nil => rfl
  | cons piece pieces ih => simp [ih, take]

theorem attrValue_readValue {v : AttrValue} (h : v = .flag true ∨ ∃ s, v = .text s ∧ s.isEmpty = false) :
    attrValue (String.ofList (readValue v)) = v := by
  rcases h with rfl | ⟨s, rfl, hs⟩
  · rfl
  · simp [readValue, attrValue, hs]

/-- A name that is not there yet goes to the end. -/
theorem putAttr_new {attrs : Attrs} {name : String} (h : name ∉ attrs.map Prod.fst) (v : AttrValue) :
    putAttr attrs name v = attrs ++ [(name, v)] := by
  induction attrs with
  | nil => rfl
  | cons a attrs ih =>
    rw [List.map_cons, List.mem_cons, not_or] at h
    rw [putAttr, if_neg (by simpa using Ne.symm h.1), ih h.2]
    rfl

/-- An element that is opened has the attributes that were written. -/
theorem foldl_putAttr {attrs : Attrs} (hw : ReadAttrs attrs) :
    (tokenAttrs attrs).foldl (fun acc a => putAttr acc a.1 (attrValue a.2)) [] = attrs := by
  -- the attributes so far have other names
  suffices h : ∀ acc : Attrs, ((acc ++ attrs).map Prod.fst).Nodup →
      (tokenAttrs attrs).foldl (fun acc a => putAttr acc a.1 (attrValue a.2)) acc = acc ++ attrs from
    h [] hw.distinct
  induction attrs with
  | nil => exact fun acc _ => (List.append_nil acc).symm
  | cons a attrs ih =>
    intro acc hnodup
    have hnew : a.1 ∉ acc.map Prod.fst := by
      rw [List.map_append, List.map_cons, List.nodup_append] at hnodup
      exact fun hmem => hnodup.2.2 _ hmem _ (List.mem_cons_self ..) rfl
    rw [tokenAttrs, List.map_cons, List.foldl_cons, putAttr_new hnew,
      attrValue_readValue (hw.values _ (List.mem_cons_self ..))]
    have hmore := ih hw.tail (acc ++ [a]) (by simpa using hnodup)
    rwa [List.append_assoc] at hmore

theorem openElement_written (b : Builder) (tag : String) {attrs : Attrs} (hw : ReadAttrs attrs) :
    b.openElement tag (tokenAttrs attrs) = b.flush.push ⟨tag, attrs, []⟩ := by
  simp only [openElement, foldl_putAttr hw, push]

/-- The end tag of the innermost open element closes it. -/
theorem endElement_of_flush {b c : Builder} {f : Frame} (h : b.flush = c.push f) :
    b.endElement f.name = c.add (close f) := by
  simp only [endElement, h, push, List.any_cons, beq_self_eq_true, Bool.true_or, if_true, List.length_cons,
    popThrough, pop]

/-- An element without content is closed when its start tag is read, and its end tag is waited for. -/
theorem take_void {tag : String} {attrs : Attrs} (hw : ReadAttrs attrs) (hv : tag ∈ voidWhenRead)
    (b : Builder) :
    b.take (.startTag tag (tokenAttrs attrs) false) =
      { b.flush.add (.node { tag := some tag, attrs := attrs } []) with closed := tag :: b.closed } := by
  have hclose := endElement_of_flush (flush_of_data (b := b.flush.push ⟨tag, attrs, []⟩) (data_flush b))
  simp only at hclose
  simp only [take, List.contains_iff_mem.2 hv, if_true, openElement_written b tag hw, hclose, closed_add,
    closed_flush]
  rfl

/-- An end tag that is waited for, and no end tag, leave the items as they are. -/
theorem foldl_take_ends {tag : String} {ends : List Token} (hends : ends = [] ∨ ends = [.endTag tag])
    (b : Builder) :
    ∃ closed, closed ⊆ tag :: b.closed ∧
      ends.foldl take { b with closed := tag :: b.closed } = { b with closed := closed } := by
  rcases hends with rfl | rfl
  · exact ⟨tag :: b.closed, List.Subset.refl _, rfl⟩
  · exact ⟨b.closed, List.subset_cons_self .., by simp [take, writtenEnd]⟩

theorem take_open {tag : String} {attrs : Attrs} (hw : ReadAttrs attrs) (hv : tag ∉ voidWhenRead)
    (b : Builder) :
    b.take (.startTag tag (tokenAttrs attrs) false) = b.flush.push ⟨tag, attrs, []⟩ := by
  simp [take, openElement_written b tag hw, hv]

/-- Where content has been built in an open element, its end tag closes it. -/
theorem take_close {b b' : Builder} {tag : String} {attrs : Attrs} {cs : List Content} {closed : List String}
    (hb : b'.flush = { (b.flush.push ⟨tag, attrs, []⟩).flush.put cs with closed := closed })
    (hnot : tag ∉ closed) :
    b'.take (.endTag tag) =
      { b.flush with closed := closed }.add (.node { tag := some tag, attrs := attrs } cs) := by
  have hflush : b'.flush = push { b.flush with closed := closed } ⟨tag, attrs, cs.reverse⟩ := by
    rw [hb, flush_of_data (b := b.flush.push ⟨tag, attrs, []⟩) b.data_flush, put_push, List.append_nil]
    rfl
  have hwait : tag ∉ b'.closed := by
    rw [← closed_flush, hflush]
    exact hnot
  have hend := endElement_of_flush hflush
  simp only [close, List.reverse_reverse] at hend
  simp [take, writtenEnd, hwait, hend]

end Builder

/-- **The document is built from its tokens.** The items come out in the innermost open element, behind what
the character data before them gives. -/
theorem Spells.build {ts : List Token} {items : List Content} (h : Spells ts items) {b : Builder}
    (hb : b.Ready) (hdata : b.data ≠ [] → startsWithText items = false) :
    ∃ closed, closed ⊆ voidWhenRead ∧
      (ts.foldl Builder.take b).flush = { b.flush.put items with closed := closed } := by
  induction h generalizing b with
  | nil => exact ⟨b.flush.closed, b.closed_flush ▸ hb.closed, by rw [Builder.put_nil]; rfl⟩
  | @text cs pieces ts rest hcs hkept hpieces hsep hrest ih =>
    subst hpieces
    have hnone : b.data = [] := by
      simpa [startsWithText, isLiteral_textLeaf] using hdata
    obtain ⟨closed, hclosed, hbuilt⟩ := ih (b := { b with data := pieces.reverse }) ⟨hb.closed, hb.opened⟩
      fun _ => hsep
    refine ⟨closed, hclosed, ?_⟩
    rw [List.foldl_append, Builder.foldl_take_text, hnone, List.append_nil, hbuilt,
      Builder.flush_kept hb hnone hcs hkept, Builder.flush_of_data hnone, Builder.put_cons]
  | @comment cs ts rest hcs hrest ih =>
    obtain ⟨closed, hclosed, hbuilt⟩ := ih (hb.flush.add (.text (commentLeaf cs))) (by simp)
    refine ⟨closed, hclosed, ?_⟩
    rw [List.foldl_cons, Builder.take_comment hcs, hbuilt, Builder.flush_of_data (by simp), Builder.put_cons]
  | @void tag attrs ends ts rest he hv hends hrest ih =>
    have hnode := hb.flush.add (.node { tag := some tag, attrs := attrs } [])
    obtain ⟨waiting, hwaiting, hends⟩ := Builder.foldl_take_ends hends
      (b.flush.add (.node { tag := some tag, attrs := attrs } []))
    have hsub : waiting ⊆ voidWhenRead :=
      List.Subset.trans hwaiting (List.cons_subset.2 ⟨hv, by simpa using hb.closed⟩)
    obtain ⟨closed, hclosed, hbuilt⟩ := ih
      (b := { b.flush.add (.node { tag := some tag, attrs := attrs } []) with closed := waiting })
      ⟨hsub, hnode.opened⟩ (by simp)
    refine ⟨closed, hclosed, ?_⟩
    simp only [Builder.closed_add, Builder.closed_flush] at hends
    rw [List.foldl_cons, List.foldl_append, Builder.take_void he.attrs.read hv, hends, hbuilt,
      Builder.flush_of_data (by simp), Builder.put_closed, Builder.put_cons]
  | @element tag attrs inner ts cs rest he hv hcs hrest ihc ih =>
    -- the content is built in the open element, which its end tag closes
    obtain ⟨inside, hinside, hbuilt⟩ := ihc (b := b.flush.push ⟨tag, attrs, []⟩)
      ⟨hb.flush.closed, List.forall_mem_cons.2 ⟨he.notRaw, hb.flush.opened⟩⟩ (by simp [Builder.push])
    have hclose := Builder.take_close hbuilt fun hmem => hv (hinside hmem)
    obtain ⟨closed, hclosed, hbuilt⟩ := ih
      (b := Builder.add { b.flush with closed := inside } (.node { tag := some tag, attrs := attrs } cs))
      (Builder.Ready.add (b := { b.flush with closed := inside }) ⟨hinside, hb.flush.opened⟩ _) (by simp)
    refine ⟨closed, hclosed, ?_⟩
    rw [List.foldl_cons, List.foldl_append, List.foldl_cons, Builder.take_open he.attrs.read hv, hclose, hbuilt,
      Builder.flush_of_data (by simp), ← Builder.put_cons, Builder.put_closed]

/-- The document of its tokens. -/
theorem Spells.finish {ts : List Token} {items : List Content} (h : Spells ts items) :
    (ts.foldl Builder.take {}).finish = items := by
  obtain ⟨closed, _, hbuilt⟩ := h.build (b := {}) ⟨by simp, by simp⟩ (by simp)
  rw [Builder.finish, hbuilt]
  simp [Builder.put, Builder.flush]

/-- A document in normal form is read as it is written. -/
theorem parse_render_of_normalForm {items : List Content} (h : NormalForm items) :
    parse (render items) = .ok items := by
  obtain ⟨ts, hts, hlex⟩ := exists_spells h.joined h.runs (.inl rfl) .nil
  rw [List.append_nil, List.append_nil] at hlex
  rw [parse, tokens_of_lexes hlex]
  simp only [bind, Except.bind, hts.finish]
  rfl

/-- **Reading undoes writing.** A document in normal form is read as it is written. Where transparent nodes
and text leaves side by side are in it too, its joined form is read, if that keeps every run of text. -/
theorem parse_render :
    (∀ items, NormalForm items → parse (render items) = .ok items) ∧
      ∀ items, Writable items → RunsKept (plain items) → parse (render items) = .ok (plain items) := by
  refine ⟨fun items h => parse_render_of_normalForm h, fun items hw hr => ?_⟩
  have hplain := parse_render_of_normalForm ⟨joined_plain hw, hr⟩
  rwa [render_plain hw] at hplain

/-- The attributes of a paragraph: a value to escape, and a bare presence. -/
def noteAttrs : Attrs := [("title", .text "<\"a\" & b>"), ("hidden", .flag true)]

/-- A paragraph with text to escape, a line break and a note. -/
def noteSample : List Content :=
  [.node { tag := some "p", attrs := noteAttrs }
    [.text (textLeaf ['x', ' ', '<', ' ', 'y']), .node { tag := some "br" } [],
      .text (commentLeaf [' ', 'n', 'o', 't', 'e'])]]

/-- The same with the text in two leaves, one of them in a transparent node. -/
def splitSample : List Content :=
  [.node { tag := some "p", attrs := noteAttrs }
    [.text (textLeaf ['x', ' ']),
      .node { tag := none } [.text (textLeaf ['<', ' ', 'y']), .node { tag := some "br" } []],
      .text (commentLeaf [' ', 'n', 'o', 't', 'e'])]]

theorem writtenElement_note {cs : List Content} : WrittenElement "p" noteAttrs cs where
  name := by decide
  notRaw := by decide
  attrs := ⟨by decide, by decide, by simp [noteAttrs]⟩
  void hv := absurd hv (by decide)

theorem writtenElement_break : WrittenElement "br" [] [] where
  name := by decide
  notRaw := by decide
  attrs := ⟨by decide, by decide, by simp⟩
  void _ := rfl

theorem joined_noteSample : Joined noteSample :=
  .element writtenElement_note
    (.text (by decide) rfl (.element writtenElement_break .nil (.comment ⟨by decide, by decide⟩ .nil))) .nil

theorem writable_splitSample : Writable splitSample :=
  .element rfl writtenElement_note
    (.text (by decide)
      (.transparent rfl (.text (by decide) (.element rfl writtenElement_break .nil .nil))
        (.comment ⟨by decide, by decide⟩ .nil))) .nil

theorem runsKept_noteSample : RunsKept noteSample := by
  simp only [noteSample, runsKept_node, runsKept_text, runsKept_nil, and_true, true_and]
  exact ⟨fun cs h => keptRun_of_textLeaf h (by decide), fun cs h => keptRun_of_textLeaf h (by decide)⟩

theorem plain_splitSample : plain splitSample = noteSample := by
  decide

/-- A document and one that is written as it is are both read as the former. -/
theorem noteSample_read_back :
    parse (render noteSample) = .ok noteSample ∧ parse (render splitSample) = .ok noteSample := by
  refine ⟨parse_render.1 _ ⟨joined_noteSample, runsKept_noteSample⟩, ?_⟩
  have hsplit := parse_render.2 splitSample writable_splitSample
  rw [plain_splitSample] at hsplit
  exact hsplit runsKept_noteSample

end Markup
end PageComposer
