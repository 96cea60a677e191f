/-
# Documents in normal form

Some documents can be told from what is written for them. Two leaves side by side are read as one, a
transparent node leaves no trace, and blanks alone may be read as fewer.

| predicate | documents |
| --- | --- |
| `Writable` | every name, value and leaf is one that reading gives |
| `Joined` | the same, no node is transparent, none has been dealt with, and no text leaf follows another |
| `NormalForm` | the same, and no text leaf is blanks alone, except for one space or one line feed |

A writable document has a joined form (`plain`), in which the content of a transparent node stands for the
node and the text leaves that meet are one. It is written in the same way (`render_plain`).
-/

import PageComposer.Markup.Render
import PageComposer.Markup.Tree
import PageComposer.Proofs.Document.Heads

namespace PageComposer
namespace Markup

/-! ### Names, values and leaves -/

/-- A small ASCII letter. -/
def isSmallLetter (c : Char) : Bool := 'a' ≤ c && c ≤ 'z'

/-- Whether a text is a name of an element: a small letter, then small letters, digits and hyphens. -/
def isTagName (s : String) : Bool :=
  match s.toList with
  | [] => false
  | c :: cs => isSmallLetter c && cs.all fun c => isSmallLetter c || Text.isAsciiDigit c || c == '-'

/-- Whether a text is a name of an attribute: a small letter, an underscore or a colon, then these, digits,
points and hyphens. -/
def isAttrName (s : String) : Bool :=
  match s.toList with
  | [] => false
  | c :: cs => (isSmallLetter c || c == '_' || c == ':') && cs.all fun c =>
      isSmallLetter c || Text.isAsciiDigit c || c == '_' || c == ':' || c == '.' || c == '-'

/-- A text leaf with characters in it. -/
def textLeaf (cs : List Char) : String := String.ofList (escaped cs)

/-- A comment with characters in it. -/
def commentLeaf (cs : List Char) : String := "<!--" ++ String.ofList cs ++ "-->"

/-- Whether a leaf is a literal construct: a text leaf has its `<` escaped. -/
def isLiteral (s : String) : Bool := s.toList.head? == some '<'

/-- Characters that are read as they are: not blanks alone, except for one space or one line feed. -/
def KeptRun (cs : List Char) : Prop :=
  cs.all Text.isMarkupBlank = false ∨ cs = [' '] ∨ cs = ['\n']

/-- Characters of a comment that are read as they are. -/
structure KeptComment (cs : List Char) : Prop where
  noAngle : '>' ∉ cs
  notBlank : cs.all Text.isMarkupBlank = false

/-- Attributes that reading gives. -/
structure WrittenAttrs (attrs : Attrs) : Prop where
  names : ∀ a ∈ attrs, isAttrName a.1 = true
  distinct : (attrs.map Prod.fst).Nodup
  values : ∀ a ∈ attrs, a.2 = .flag true ∨ ∃ s, a.2 = .text s ∧ s.isEmpty = false

/-- A name that is read as it is where a blank stands before it: no blank, slash, equals sign or angle is in it,
and it is in small letters. -/
structure ReadName (s : String) : Prop where
  notEmpty : s.toList ≠ []
  chars : ∀ c ∈ s.toList, isAttrNameChar c = true
  small : Text.lowered s.toList = s.toList

/-- Attributes that are read as they are written: `WrittenAttrs` with names in any alphabet. -/
structure ReadAttrs (attrs : Attrs) : Prop where
  names : ∀ a ∈ attrs, ReadName a.1
  distinct : (attrs.map Prod.fst).Nodup
  values : ∀ a ∈ attrs, a.2 = .flag true ∨ ∃ s, a.2 = .text s ∧ s.isEmpty = false

/-- An element that reading gives. -/
structure WrittenElement (tag : String) (attrs : Attrs) (cs : List Content) : Prop where
  name : isTagName tag = true
  notRaw : tag ∉ rawElements
  attrs : WrittenAttrs attrs
  void : tag ∈ voidWhenRead → cs = []

theorem escaped_append (xs ys : List Char) : escaped (xs ++ ys) = escaped xs ++ escaped ys :=
  List.flatMap_append

theorem textLeaf_append (xs ys : List Char) : textLeaf xs ++ textLeaf ys = textLeaf (xs ++ ys) := by
  rw [textLeaf, textLeaf, textLeaf, escaped_append, String.ofList_append]

theorem isLiteral_textLeaf (cs : List Char) : isLiteral (textLeaf cs) = false := by
  cases cs with
  | nil => rfl
  | cons c cs =>
    have hc : (escapedChar c).head? ≠ some '<' ∧ escapedChar c ≠ [] := by
      unfold escapedChar
      split <;> simp_all
    obtain ⟨d, ds, hd⟩ := List.exists_cons_of_ne_nil hc.2
    rw [hd] at hc
    simpa [isLiteral, textLeaf, escaped, hd] using hc.1

theorem isLiteral_commentLeaf (cs : List Char) : isLiteral (commentLeaf cs) = true := by
  simp [isLiteral, commentLeaf]

/-! ### Documents -/

/-- Whether the first item is a text leaf, other than a literal construct. -/
def startsWithText : List Content → Bool
  | .text s :: _ => !isLiteral s
  | _ => false

/-- Documents of which each name, value and leaf is one that reading gives. -/
inductive Writable : List Content → Prop
  | nil : Writable []
  | text {cs : List Char} {rest : List Content} (hcs : cs ≠ []) (hrest : Writable rest) :
      Writable (.text (textLeaf cs) :: rest)
  | comment {cs : List Char} {rest : List Content} (hcs : KeptComment cs) (hrest : Writable rest) :
      Writable (.text (commentLeaf cs) :: rest)
  | transparent {h : Head} {cs rest : List Content} (ht : h.tag = none) (hcs : Writable cs)
      (hrest : Writable rest) : Writable (.node h cs :: rest)
  | element {h : Head} {tag : String} {cs rest : List Content} (ht : h.tag = some tag)
      (he : WrittenElement tag h.attrs cs) (hcs : Writable cs) (hrest : Writable rest) :
      Writable (.node h cs :: rest)

/-- Writable documents without transparent nodes in which no text leaf follows another. -/
inductive Joined : List Content → Prop
  | nil : Joined []
  | text {cs : List Char} {rest : List Content} (hcs : cs ≠ []) (hsep : startsWithText rest = false)
      (hrest : Joined rest) : Joined (.text (textLeaf cs) :: rest)
  | comment {cs : List Char} {rest : List Content} (hcs : KeptComment cs) (hrest : Joined rest) :
      Joined (.text (commentLeaf cs) :: rest)
  | element {tag : String} {attrs : Attrs} {cs rest : List Content} (he : WrittenElement tag attrs cs)
      (hcs : Joined cs) (hrest : Joined rest) :
      Joined (.node { tag := some tag, attrs := attrs } cs :: rest)

mutual

/-- The leaves of an item. -/
def leavesItem : Content → List String
  | .text s => [s]
  | .node _ cs => leaves cs

/-- The leaves of a content list. -/
def leaves : List Content → List String
  | [] => []
  | item :: rest => leavesItem item ++ leaves rest

end

/-- No text leaf is read as fewer blanks. -/
def RunsKept (items : List Content) : Prop :=
  ∀ cs, textLeaf cs ∈ leaves items → KeptRun cs

/-- Documents that are read as they are written. -/
structure NormalForm (items : List Content) : Prop where
  joined : Joined items
  runs : RunsKept items

@[simp] theorem runsKept_nil : RunsKept [] := by simp [RunsKept, leaves]

@[simp] theorem runsKept_text {s : String} {rest : List Content} :
    RunsKept (.text s :: rest) ↔ (∀ cs, textLeaf cs = s → KeptRun cs) ∧ RunsKept rest := by
  simp only [RunsKept, leaves, leavesItem, List.cons_append, List.nil_append, List.mem_cons]
  exact ⟨fun h => ⟨fun cs hcs => h cs (.inl hcs), fun cs hcs => h cs (.inr hcs)⟩,
    fun h cs hcs => hcs.elim (h.1 cs) (h.2 cs)⟩

@[simp] theorem runsKept_node {h : Head} {cs rest : List Content} :
    RunsKept (.node h cs :: rest) ↔ RunsKept cs ∧ RunsKept rest := by
  simp only [RunsKept, leaves, leavesItem, List.mem_append]
  exact ⟨fun h => ⟨fun s hs => h s (.inl hs), fun s hs => h s (.inr hs)⟩,
    fun h s hs => hs.elim (h.1 s) (h.2 s)⟩

/-! ### The joined form -/

/-- A leaf before a content list, joined with a text leaf that the list begins with. -/
def joinText (s : String) (rest : List Content) : List Content :=
  match rest with
  | .text t :: more => if isLiteral s || isLiteral t then .text s :: rest else .text (s ++ t) :: more
  | _ => .text s :: rest

mutual

/-- The joined form of an item, before a joined content list. -/
def plainItem : Content → List Content → List Content
  | .text s, rest => joinText s rest
  | .node h cs, rest =>
    match h.tag with
    | none => plainBefore cs rest
    | some tag => .node { tag := some tag, attrs := h.attrs } (plainBefore cs []) :: rest

/-- The joined form of a content list, before a joined content list. -/
def plainBefore : List Content → List Content → List Content
  | [], rest => rest
  | item :: items, rest => plainItem item (plainBefore items rest)

end

/-- The joined form of a content list: the content of transparent nodes stands for them, and text leaves that
meet are one. -/
def plain (items : List Content) : List Content := plainBefore items []

@[simp] theorem plainBefore_nil (rest : List Content) : plainBefore [] rest = rest := rfl

@[simp] theorem plainBefore_text (s : String) (items rest : List Content) :
    plainBefore (.text s :: items) rest = joinText s (plainBefore items rest) := by
  simp [plainBefore, plainItem]

theorem plainBefore_transparent {h : Head} (ht : h.tag = none) (cs items rest : List Content) :
    plainBefore (.node h cs :: items) rest = plainBefore cs (plainBefore items rest) := by
  simp [plainBefore, plainItem, ht]

theorem plainBefore_element {h : Head} {tag : String} (ht : h.tag = some tag)
    (cs items rest : List Content) :
    plainBefore (.node h cs :: items) rest =
      .node { tag := some tag, attrs := h.attrs } (plainBefore cs []) :: plainBefore items rest := by
  simp [plainBefore, plainItem, ht]

theorem voidWhenWritten_subset : voidWhenWritten ⊆ voidWhenRead := by decide

/-! ### How elements are written -/

@[simp] theorem render_nil : render [] = "" := rfl

@[simp] theorem render_text (s : String) (rest : List Content) :
    render (.text s :: rest) = s ++ render rest := by
  simp [render, renderItem]

theorem render_transparent {h : Head} (ht : h.tag = none) (cs rest : List Content) :
    render (.node h cs :: rest) = render cs ++ render rest := by
  simp [render, ht]

/-- An element that is written as its start tag has no content. -/
theorem render_void {h : Head} {tag : String} (ht : h.tag = some tag) (hv : tag ∈ voidWhenWritten)
    (rest : List Content) :
    render (.node h [] :: rest) = startTagText tag h.attrs ++ render rest := by
  simp [render, renderItem, ht, hv]

theorem render_element {h : Head} {tag : String} (ht : h.tag = some tag)
    (hv : tag ∉ voidWhenWritten) (cs rest : List Content) :
    render (.node h cs :: rest) =
      startTagText tag h.attrs ++ render cs ++ "</" ++ tag ++ ">" ++ render rest := by
  simp [render, renderItem, ht, hv]

theorem render_joinText (s : String) (rest : List Content) :
    render (joinText s rest) = s ++ render rest := by
  unfold joinText
  split
  · split
    · rw [render_text]
    · rw [render_text, render_text, String.append_assoc]
  · rw [render_text]

/-- **A document is written as its joined form is.** -/
theorem render_plainBefore {items : List Content} (hw : Writable items) (rest : List Content) :
    render (plainBefore items rest) = render items ++ render rest := by
  induction hw generalizing rest with
  | nil => simp
  | text _ _ ih | comment _ _ ih =>
    rw [plainBefore_text, render_joinText, render_text, ih, String.append_assoc]
  | transparent ht _ _ ihc ih =>
    rw [plainBefore_transparent ht, ihc, ih, render_transparent ht, String.append_assoc]
  | @element h tag cs more ht he _ _ ihc ih =>
    rw [plainBefore_element ht]
    by_cases hv : tag ∈ voidWhenWritten
    · obtain rfl := he.void (voidWhenWritten_subset hv)
      rw [plainBefore_nil, render_void rfl hv, render_void ht hv, ih, String.append_assoc]
    · rw [render_element rfl hv, render_element ht hv, ihc, ih]
      simp [String.append_assoc]

theorem render_plain {items : List Content} (hw : Writable items) : render (plain items) = render items := by
  rw [plain, render_plainBefore hw, render_nil, String.append_empty]

/-- A leaf stays apart from what is not a text leaf. -/
theorem joinText_of_not_startsWithText (s : String) {rest : List Content}
    (h : startsWithText rest = false) : joinText s rest = .text s :: rest := by
  unfold joinText
  split
  · rename_i t more
    have ht : isLiteral t = true := by simpa [startsWithText] using h
    rw [ht, Bool.or_true, if_pos rfl]
  · rfl

/-- A literal construct stays apart from what follows. -/
theorem joinText_commentLeaf (cs : List Char) (rest : List Content) :
    joinText (commentLeaf cs) rest = .text (commentLeaf cs) :: rest := by
  unfold joinText
  split
  · rw [isLiteral_commentLeaf, Bool.true_or, if_pos rfl]
  · rfl

/-- A text leaf goes before a joined list. -/
theorem joined_joinText {cs : List Char} (hcs : cs ≠ []) {rest : List Content} (hj : Joined rest) :
    Joined (joinText (textLeaf cs) rest) := by
  cases hj with
  | nil => exact .text hcs rfl .nil
  | @text ds more hds hsep hmore =>
    simp only [joinText, isLiteral_textLeaf, Bool.or_self, Bool.false_eq_true, if_false, textLeaf_append]
    exact .text (by simp [hcs]) hsep hmore
  | comment hds hmore =>
    simp only [joinText, isLiteral_commentLeaf, Bool.or_true, if_true]
    exact .text hcs (by simp [startsWithText, isLiteral_commentLeaf]) (.comment hds hmore)
  | element he hc hmore => exact .text hcs rfl (.element he hc hmore)

/-- **The joined form is joined.** -/
theorem joined_plainBefore {items rest : List Content} (hw : Writable items) (hj : Joined rest) :
    Joined (plainBefore items rest) := by
  induction hw generalizing rest with
  | nil => exact hj
  | text hcs _ ih =>
    rw [plainBefore_text]
    exact joined_joinText hcs (ih hj)
  | comment hcs _ ih =>
    rw [plainBefore_text, joinText_commentLeaf]
    exact .comment hcs (ih hj)
  | transparent ht _ _ ihc ih =>
    rw [plainBefore_transparent ht]
    exact ihc (ih hj)
  | element ht he _ _ ihc ih =>
    rw [plainBefore_element ht]
    refine .element ⟨he.name, he.notRaw, he.attrs, fun hv => ?_⟩ (ihc .nil) (ih hj)
    rw [he.void hv, plainBefore_nil]

theorem joined_plain {items : List Content} (hw : Writable items) : Joined (plain items) :=
  joined_plainBefore hw .nil

/-- A joined document is its own joined form. -/
theorem plain_eq_self {items : List Content} (hj : Joined items) : plain items = items := by
  unfold plain
  induction hj with
  | nil => rfl
  | text _ hsep _ ih => rw [plainBefore_text, ih, joinText_of_not_startsWithText _ hsep]
  | comment _ _ ih => rw [plainBefore_text, ih, joinText_commentLeaf]
  | element _ _ _ ihc ih => rw [plainBefore_element rfl, ihc, ih]

theorem escaped_of_blank {cs : List Char} (h : cs.all Text.isMarkupBlank = true) : escaped cs = cs := by
  induction cs with
  | nil => rfl
  | cons c cs ih =>
    rw [List.all_cons, Bool.and_eq_true] at h
    have hc : escapedChar c = [c] := by
      unfold escapedChar
      split <;> first | rfl | exact absurd h.1 (by decide)
    rw [escaped, List.flatMap_cons, hc]
    exact congrArg (c :: ·) (ih h.2)

/-- Only blanks are written as blanks. -/
theorem keptRun_of_textLeaf {cs : List Char} {s : String} (h : textLeaf cs = s)
    (hs : s.toList.all Text.isMarkupBlank = false) : KeptRun cs := by
  refine .inl (Bool.eq_false_iff.2 fun hblank => ?_)
  rw [← h, textLeaf, escaped_of_blank hblank, String.toList_ofList, hblank] at hs
  cases hs

end Markup
end PageComposer
