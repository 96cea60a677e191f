/-
# How written markup is cut into tokens

What a document in normal form is written as is read back piece by piece. A piece is taken in one step,
whatever stands behind it and whichever pass reads it, but for a text leaf: that is taken in one step for each
reference and one for the characters up to the next, so a tag, a comment or nothing has to follow
(`Boundary`).

| piece | taken as |
| --- | --- |
| start tag | one token with the names and the values that were written (`step_startTag`) |
| end tag | one token (`step_endTag`) |
| comment | one token: without `>` in it, it ends at the first place where it can (`step_comment`) |
| text leaf | character data in pieces (`lexes_text`) |

A value in quotes has every ampersand and every double quote as a reference, so it ends at the closing quote
(`quote_not_mem_spelled`), and each reference stands for the character that was written (`decodeValue_spelled`).
Which characters are written as references beside these does not matter (`IsSpelling`).
-/

import PageComposer.Proofs.Markup.NormalForm
import PageComposer.Proofs.Text.Blanks

namespace PageComposer
namespace Markup

/-! ### Characters of names -/

/-- What may stand in the name of an element or an attribute that is written. -/
def isNameChar (c : Char) : Bool :=
  isSmallLetter c || Text.isAsciiDigit c || c == '_' || c == ':' || c == '.' || c == '-'

/-- The code points of characters of names. -/
theorem range_of_isNameChar {c : Char} (h : isNameChar c = true) :
    (97 ≤ c.toNat ∧ c.toNat ≤ 122) ∨ (48 ≤ c.toNat ∧ c.toNat ≤ 58) ∨ c.toNat = 95 ∨ c.toNat = 46 ∨
      c.toNat = 45 := by
  simp only [isNameChar, isSmallLetter, Text.isAsciiDigit, Bool.or_eq_true, Bool.and_eq_true,
    decide_eq_true_eq, beq_iff_eq] at h
  rcases h with ((((⟨ha, hz⟩ | ⟨h0, h9⟩) | rfl) | rfl) | rfl) | rfl
  · exact .inl ⟨ha, hz⟩
  · exact .inr (.inl ⟨h0, Nat.le_succ_of_le h9⟩)
  all_goals decide

/-- A character of a name is none of those that end it, and is a small letter where it is a letter. -/
theorem ne_of_isNameChar {c d : Char} (h : isNameChar c = true) (hd : isNameChar d = false) : c ≠ d := by
  rintro rfl
  rw [h] at hd
  cases hd

theorem isBlank_of_isNameChar {c : Char} (h : isNameChar c = true) : Text.isBlank c = false := by
  have hr := range_of_isNameChar h
  rw [Bool.eq_false_iff]
  intro hb
  simp only [Text.isBlank, Bool.or_eq_true, Bool.and_eq_true, decide_eq_true_eq, beq_iff_eq] at hb
  omega

theorem lowerChar_of_isNameChar {c : Char} (h : isNameChar c = true) : Text.lowerChar c = [c] := by
  have hr := range_of_isNameChar h
  exact Text.lowerChar_eq_self (by omega) (by omega)

/-- Names are in small letters already. -/
theorem lowered_of_isNameChar {cs : List Char} (h : ∀ c ∈ cs, isNameChar c = true) :
    Text.lowered cs = cs := by
  have hsigma : cs.contains Text.capitalSigma = false := by
    rw [Bool.eq_false_iff]
    intro hc
    have := h _ (List.contains_iff_mem.1 hc)
    exact absurd this (by decide)
  rw [Text.lowered, hsigma, if_neg (by simp)]
  induction cs with
  | nil => rfl
  | cons c cs ih =>
    rw [List.forall_mem_cons] at h
    rw [List.flatMap_cons, lowerChar_of_isNameChar h.1, ih h.2 (by simp_all)]
    rfl

theorem isTagNameChar_of_isNameChar {c : Char} (h : isNameChar c = true) : isTagNameChar c = true := by
  simp only [isTagNameChar, Bool.not_eq_true', Bool.or_eq_false_iff, beq_eq_false_iff_ne]
  and_intros <;> exact ne_of_isNameChar h (by decide)

theorem isAttrNameChar_of_isNameChar {c : Char} (h : isNameChar c = true) : isAttrNameChar c = true := by
  simp only [isAttrNameChar, isBlank_of_isNameChar h, Bool.not_eq_true', Bool.or_eq_false_iff,
    beq_eq_false_iff_ne, true_and]
  and_intros <;> exact ne_of_isNameChar h (by decide)

/-- The characters of a tag name. -/
structure TagChars (cs : List Char) : Prop where
  nameChars : ∀ c ∈ cs, isNameChar c = true
  endChars : ∀ c ∈ cs, isEndNameChar c = true
  letter : ∃ c rest, cs = c :: rest ∧ Text.isAsciiLetter c = true

theorem tagChars {tag : String} (h : isTagName tag = true) : TagChars tag.toList := by
  unfold isTagName at h
  split at h
  · cases h
  · rename_i c cs hcs
    simp only [Bool.and_eq_true, List.all_eq_true, Bool.or_eq_true, beq_iff_eq] at h
    have hname : ∀ d ∈ c :: cs, (isSmallLetter d = true ∨ Text.isAsciiDigit d = true) ∨ d = '-' :=
      List.forall_mem_cons.2 ⟨.inl (.inl h.1), h.2⟩
    have hletter : ∀ d, isSmallLetter d = true → Text.isAsciiLetter d = true := by
      intro d hd
      simp only [Text.isAsciiLetter]
      rw [show ('a' ≤ d && d ≤ 'z') = true from hd, Bool.true_or]
    rw [hcs]
    refine ⟨fun d hd => ?_, fun d hd => ?_, ⟨c, cs, rfl, hletter c h.1⟩⟩
    · rcases hname d hd with (hd | hd) | rfl <;> simp [isNameChar, *]
    · rcases hname d hd with (hd | hd) | rfl
      · simp [isEndNameChar, Text.isAsciiAlnum, hletter d hd]
      · simp [isEndNameChar, Text.isAsciiAlnum, hd]
      · decide

theorem nameChars_of_isAttrName {name : String} (h : isAttrName name = true) :
    name.toList ≠ [] ∧ ∀ c ∈ name.toList, isNameChar c = true := by
  unfold isAttrName at h
  split at h
  · cases h
  · rename_i c cs hcs
    simp only [Bool.and_eq_true, List.all_eq_true] at h
    rw [hcs]
    refine ⟨by simp, List.forall_mem_cons.2 ⟨?_, fun d hd => h.2 d hd⟩⟩
    have hc := h.1
    simp only [Bool.or_eq_true] at hc
    rcases hc with (hc | hc) | hc <;> simp [isNameChar, hc]

/-- Written attributes are read as they are. -/
theorem WrittenAttrs.read {attrs : Attrs} (hw : WrittenAttrs attrs) : ReadAttrs attrs where
  names a ha :=
    have hname := nameChars_of_isAttrName (hw.names a ha)
    ⟨hname.1, fun c hc => isAttrNameChar_of_isNameChar (hname.2 c hc), lowered_of_isNameChar hname.2⟩
  distinct := hw.distinct
  values := hw.values

/-- What may stand in the name of an attribute is no blank and no sign that ends it. -/
theorem isAttrNameChar_iff {c : Char} :
    isAttrNameChar c = true ↔ Text.isBlank c = false ∧ c ≠ '/' ∧ c ≠ '=' ∧ c ≠ '>' := by
  simp [isAttrNameChar, and_assoc]

/-! ### Character references -/

/-- A character that is written as a reference in text. -/
def isEscaped (c : Char) : Bool := c == '&' || c == '<' || c == '>'

theorem escapedChar_of_not_isEscaped {c : Char} (h : isEscaped c = false) : escapedChar c = [c] := by
  simp only [isEscaped, Bool.or_eq_false_iff, beq_eq_false_iff_ne] at h
  unfold escapedChar
  split <;> simp_all

theorem step_reference {c : Char} (h : isEscaped c = true) (last : Bool) (rest : List Char) :
    step last (escapedChar c ++ rest) = .ok (.go [.text [c]] none rest) := by
  simp only [isEscaped, Bool.or_eq_true, beq_iff_eq] at h
  rcases h with (rfl | rfl) | rfl <;> rfl

theorem valueReference?_amp (rest : List Char) :
    valueReference? ("amp;".toList ++ rest) = .ok (some (['&'], rest)) := rfl

theorem valueReference?_lt (rest : List Char) :
    valueReference? ("lt;".toList ++ rest) = .ok (some (['<'], rest)) := rfl

theorem valueReference?_gt (rest : List Char) :
    valueReference? ("gt;".toList ++ rest) = .ok (some (['>'], rest)) := rfl

theorem valueReference?_quot (rest : List Char) :
    valueReference? ("quot;".toList ++ rest) = .ok (some (['"'], rest)) := rfl

theorem valueReference?_apostrophe (rest : List Char) :
    valueReference? ("#x27;".toList ++ rest) = .ok (some (['\''], rest)) := rfl

/-- What is written for a character of a value: the character, or a reference that is read as it. -/
def IsSpelling (written : List Char) (c : Char) : Prop :=
  (written = [c] ∧ c ≠ '&' ∧ c ≠ '"') ∨
    ∃ ref, written = '&' :: ref ∧ '"' ∉ ref ∧
      ∀ rest, valueReference? (ref ++ rest) = .ok (some ([c], rest))

/-- Rendering writes a character of a value as it is, or as a reference that is read as the character. -/
theorem isSpelling_quotedChar (c : Char) : IsSpelling (quotedChar c) c := by
  unfold quotedChar
  split
  · exact .inr ⟨_, rfl, by decide, valueReference?_amp⟩
  · exact .inr ⟨_, rfl, by decide, valueReference?_lt⟩
  · exact .inr ⟨_, rfl, by decide, valueReference?_gt⟩
  · exact .inr ⟨_, rfl, by decide, valueReference?_quot⟩
  · exact .inr ⟨_, rfl, by decide, valueReference?_apostrophe⟩
  · rename_i hamp _ _ hquot _
    exact .inl ⟨rfl, hamp, hquot⟩

section Spelling

variable {spell : Char → List Char}

/-- A written value holds no quote. -/
theorem quote_not_mem_spelled {cs : List Char} (h : ∀ c ∈ cs, IsSpelling (spell c) c) :
    '"' ∉ cs.flatMap spell := by
  rw [List.mem_flatMap]
  rintro ⟨c, hmem, hc⟩
  rcases h c hmem with ⟨hq, _, hne⟩ | ⟨ref, hq, hne, _⟩
  · rw [hq, List.mem_singleton] at hc
    exact hne hc.symm
  · rw [hq, List.mem_cons] at hc
    exact hc.elim (by decide) hne

theorem decodeValueFrom_spelled {cs : List Char} (h : ∀ c ∈ cs, IsSpelling (spell c) c) {fuel : Nat}
    (hfuel : (cs.flatMap spell).length ≤ fuel) : decodeValueFrom fuel (cs.flatMap spell) = .ok cs := by
  induction cs generalizing fuel with
  | nil => cases fuel <;> rfl
  | cons c cs ih =>
    rw [List.forall_mem_cons] at h
    rw [List.flatMap_cons] at hfuel ⊢
    rcases h.1 with ⟨hq, hamp, _⟩ | ⟨ref, hq, _, href⟩
    · rw [hq, List.singleton_append, List.length_cons] at hfuel
      obtain ⟨fuel, rfl⟩ : ∃ k, fuel = k + 1 := ⟨fuel - 1, by omega⟩
      rw [hq, List.singleton_append, decodeValueFrom, ih h.2 (by omega)]
      · rfl
      · exact hamp
    · rw [hq, List.cons_append, List.length_cons, List.length_append] at hfuel
      obtain ⟨fuel, rfl⟩ : ∃ k, fuel = k + 1 := ⟨fuel - 1, by omega⟩
      rw [hq, List.cons_append, decodeValueFrom, href]
      simp only [bind, Except.bind, ih h.2 (show (cs.flatMap spell).length ≤ fuel by omega)]
      rfl

/-- **A written value is read as the value.** -/
theorem decodeValue_spelled {cs : List Char} (h : ∀ c ∈ cs, IsSpelling (spell c) c) :
    decodeValue (cs.flatMap spell) = .ok cs :=
  decodeValueFrom_spelled h (Nat.le_refl _)

end Spelling

/-! ### Tags -/

/-- The characters of written attributes. -/
def attrsChars (attrs : Attrs) : List Char := (renderAttrs attrs).toList

/-- The value of an attribute as it is read, empty for a bare presence. -/
def readValue : AttrValue → List Char
  | .text s => s.toList
  | _ => []

/-- The value of an attribute as it stands between quotes, in a way of writing. -/
def rawValue (spell : Char → List Char) (v : AttrValue) : List Char := (readValue v).flatMap spell

/-- The characters of an attribute in a way of writing, and the blank before it: a bare presence is its name
alone. -/
def spelledAttr (spell : Char → List Char) (a : String × AttrValue) : List Char :=
  ' ' :: (a.1.toList ++ if a.2 = .flag true then [] else '=' :: '"' :: (rawValue spell a.2 ++ ['"']))

/-- The characters of attributes with a way of writing their values. -/
def spelledAttrs (spell : Char → List Char) (attrs : Attrs) : List Char := attrs.flatMap (spelledAttr spell)

/-- A way of writing that reading undoes, for the values of attributes. -/
def SpellsValues (spell : Char → List Char) (attrs : Attrs) : Prop :=
  ∀ a ∈ attrs, ∀ c ∈ readValue a.2, IsSpelling (spell c) c

/-- **Rendering is such a way of writing.** -/
theorem attrsChars_eq {attrs : Attrs} (hw : ReadAttrs attrs) :
    attrsChars attrs = spelledAttrs quotedChar attrs := by
  have hattr : ∀ a ∈ attrs, (renderAttr a).toList = spelledAttr quotedChar a := by
    rintro ⟨name, v⟩ ha
    rcases hw.values _ ha with rfl | ⟨s, rfl, _⟩
    · simp [renderAttr, spelledAttr]
    · simp [renderAttr, quotedValue, spelledAttr, rawValue, readValue]
  rw [attrsChars, renderAttrs, String.toList_join, spelledAttrs, List.flatMap_map, List.flatMap_def,
    List.flatMap_def, List.map_congr_left hattr]

theorem spellsValues_quotedChar (attrs : Attrs) : SpellsValues quotedChar attrs :=
  fun _ _ c _ => isSpelling_quotedChar c

section Spelling

variable {spell : Char → List Char} {attrs : Attrs}

theorem ReadAttrs.tail {a : String × AttrValue} (hw : ReadAttrs (a :: attrs)) : ReadAttrs attrs where
  names b hb := hw.names b (List.mem_cons_of_mem _ hb)
  distinct := (List.nodup_cons.1 hw.distinct).2
  values b hb := hw.values b (List.mem_cons_of_mem _ hb)

/-- Written attributes begin with a blank and a name, if there are any. -/
theorem spelledAttrs_cases (spell : Char → List Char) (hw : ReadAttrs attrs) :
    attrs = [] ∨ ∃ c cs, isAttrNameChar c = true ∧ spelledAttrs spell attrs = ' ' :: c :: cs := by
  cases attrs with
  | nil => exact .inl rfl
  | cons a attrs =>
    obtain ⟨hne, hchars, _⟩ := hw.names _ (List.mem_cons_self ..)
    obtain ⟨c, cs, hcs⟩ := List.exists_cons_of_ne_nil hne
    have hc : isAttrNameChar c = true := hchars c (by rw [hcs]; exact List.mem_cons_self ..)
    rw [spelledAttrs, List.flatMap_cons, spelledAttr, hcs]
    exact .inr ⟨c, _, hc, rfl⟩

theorem skipGap_blank (cs : List Char) : skipGap (' ' :: cs) = skipGap cs := rfl

theorem skipGap_angle (cs : List Char) : skipGap ('>' :: cs) = '>' :: cs := rfl

theorem skipGap_nameChar {c : Char} (h : isAttrNameChar c = true) (cs : List Char) :
    skipGap (c :: cs) = c :: cs := by
  obtain ⟨hblank, hslash, _⟩ := isAttrNameChar_iff.1 h
  unfold skipGap
  split
  · cases ‹_ = []›
  · exact absurd (List.cons.inj ‹_›).1 hslash
  · rename_i he
    obtain ⟨rfl, rfl⟩ := List.cons.inj he
    rw [hblank, if_neg (by simp)]

/-- No value follows where the text goes on with attributes or ends the tag. -/
theorem takeValue?_attrs (spell : Char → List Char) (hw : ReadAttrs attrs) (rest : List Char) :
    takeValue? (spelledAttrs spell attrs ++ '>' :: rest) = none := by
  rcases spelledAttrs_cases spell hw with rfl | ⟨c, cs, hc, hcs⟩
  · rfl
  · obtain ⟨hnot, _, hequals, _⟩ := isAttrNameChar_iff.1 hc
    have hblank : (' ' :: c :: (cs ++ '>' :: rest)).dropWhile Text.isBlank = c :: (cs ++ '>' :: rest) := by
      rw [List.dropWhile_cons_of_pos (by decide), List.dropWhile_cons_of_neg (by simp [hnot])]
    have hsign : (c == '=') = false := by simpa using hequals
    simp only [takeValue?, hcs, List.cons_append, hblank, List.takeWhile_cons, hsign]
    rfl

/-- A written value is taken up to its closing quote. -/
theorem takeValue?_quoted {raw : List Char} (hraw : '"' ∉ raw) (rest : List Char) :
    takeValue? ('=' :: '"' :: (raw ++ '"' :: rest)) = some (raw, true, rest) := by
  have hne : ∀ c ∈ raw, (c != '"') = true := by
    intro c hc
    rw [bne_iff_ne]
    rintro rfl
    exact hraw hc
  have hstop : (raw ++ '"' :: rest).takeWhile (· != '"') = raw := Text.takeWhile_append_stop hne (by simp)
  have hquoted : takeQuoted? '"' (raw ++ '"' :: rest) = some (raw, rest) := by
    simp only [takeQuoted?, hstop, List.drop_left]
  have hblank : Text.isBlank '=' = false ∧ Text.isBlank '"' = false := by decide
  simp [takeValue?, hblank, isQuote, hquoted]

/-- An attribute is taken, and another may follow where a gap or a quote stands between. -/
theorem takeAttrs_name {c : Char} {cs after v left : List Char} {quoted : Bool} (hc : isAttrNameChar c = true)
    (hcs : ∀ d ∈ cs, isAttrNameChar d = true) (hstop : ∀ d ∈ after.head?, isAttrNameChar d = false)
    (hv : takeValue? after = some (v, quoted, left) ∨
      (takeValue? after = none ∧ v = [] ∧ quoted = isQuote ((c :: cs).getLastD c) ∧ left = after))
    (fuel : Nat) :
    takeAttrs (fuel + 1) true (c :: (cs ++ after)) =
      let more := takeAttrs fuel (decide ((skipGap left).length < left.length) || quoted) (skipGap left)
      ((c :: cs, v) :: more.1, more.2) := by
  have hmore : (cs ++ after).takeWhile isAttrNameChar = cs :=
    Text.takeWhile_append_stop hcs hstop
  have hends : (!true || Text.isBlank c || c == '/' || c == '>') = false := by
    simp [isAttrNameChar_iff.1 hc]
  rw [takeAttrs, hends, if_neg (by simp)]
  simp only [hmore, List.drop_left]
  rcases hv with hv | ⟨hv, rfl, rfl, rfl⟩ <;> rw [hv]

/-- **Written attributes are read as they are.** -/
theorem takeAttrs_spelled (hw : ReadAttrs attrs) (hs : SpellsValues spell attrs) {fuel : Nat} {ready : Bool}
    {rest : List Char} (hfuel : (spelledAttrs spell attrs ++ '>' :: rest).length ≤ fuel)
    (hready : ready = true ∨ attrs = []) :
    takeAttrs fuel ready (skipGap (spelledAttrs spell attrs ++ '>' :: rest)) =
      (attrs.map fun a => (a.1.toList, rawValue spell a.2), '>' :: rest) := by
  induction attrs generalizing fuel ready with
  | nil =>
    obtain ⟨fuel, rfl⟩ : ∃ k, fuel = k + 1 := ⟨fuel - 1, by simp at hfuel; omega⟩
    rw [spelledAttrs, List.flatMap_nil, List.nil_append, skipGap_angle, takeAttrs, if_pos (by simp)]
    rfl
  | cons a attrs ih =>
    obtain ⟨name, v⟩ := a
    obtain rfl : ready = true := hready.resolve_right (by simp)
    obtain ⟨hne, hchars, _⟩ := hw.names _ (List.mem_cons_self ..)
    obtain ⟨c, cs, hname⟩ := List.exists_cons_of_ne_nil hne
    have hv := hw.values _ (List.mem_cons_self ..)
    rw [SpellsValues, List.forall_mem_cons] at hs
    simp only at hname hchars hv
    rw [hname, List.forall_mem_cons] at hchars
    obtain ⟨hc, hcs⟩ := hchars
    rw [spelledAttrs, List.flatMap_cons, ← spelledAttrs, spelledAttr, hname] at hfuel ⊢
    obtain ⟨fuel, rfl⟩ : ∃ k, fuel = k + 1 := ⟨fuel - 1, by simp at hfuel; omega⟩
    rw [List.map_cons, hname]
    rcases hv with rfl | ⟨s, rfl, _⟩
    · simp only [if_true, List.append_nil, List.cons_append, List.append_assoc] at hfuel ⊢
      rw [skipGap_blank, skipGap_nameChar hc]
      have hstop : ∀ d ∈ (spelledAttrs spell attrs ++ '>' :: rest).head?, isAttrNameChar d = false := by
        rcases spelledAttrs_cases spell hw.tail with rfl | ⟨d, ds, _, hds⟩
        · simp [spelledAttrs]; decide
        · rw [hds]; simp; decide
      have hgap : attrs = [] ∨ (skipGap (spelledAttrs spell attrs ++ '>' :: rest)).length <
          (spelledAttrs spell attrs ++ '>' :: rest).length := by
        rcases spelledAttrs_cases spell hw.tail with hnil | ⟨d, ds, _, hds⟩
        · exact .inl hnil
        · rw [hds, List.cons_append, skipGap_blank]
          exact .inr (Nat.lt_succ_of_le (length_skipGap_le _))
      rw [takeAttrs_name hc hcs hstop (.inr ⟨takeValue?_attrs spell hw.tail rest, rfl, rfl, rfl⟩)]
      simp only
      rw [ih hw.tail hs.2 (by simp at hfuel ⊢; omega)]
      · rfl
      · exact hgap.symm.imp_left fun hl => by rw [decide_eq_true hl, Bool.true_or]
    · simp only [reduceCtorEq, if_false, List.cons_append, List.append_assoc, List.nil_append] at hfuel ⊢
      have hquote : '"' ∉ rawValue spell (.text s) := quote_not_mem_spelled hs.1
      rw [skipGap_blank, skipGap_nameChar hc,
        takeAttrs_name hc hcs (by simp; decide) (.inl (takeValue?_quoted hquote _))]
      simp only
      rw [ih hw.tail hs.2 (by simp at hfuel ⊢; omega) (.inl (Bool.or_true _))]

/-- The attributes of a token, for attributes that are written. -/
def tokenAttrs (attrs : Attrs) : List (String × String) :=
  attrs.map fun a => (a.1, String.ofList (readValue a.2))

/-- Attributes as they are taken give those of the token. -/
theorem mapM_tokenAttrs (hw : ReadAttrs attrs) (hs : SpellsValues spell attrs) :
    ((attrs.map fun a => (a.1.toList, rawValue spell a.2)).mapM fun a =>
      match decodeValue a.2 with
      | .ok v => pure (String.ofList (Text.lowered a.1), String.ofList v)
      | .error f => throw (Fault.numeral f) : Except Fault (List (String × String))) =
    .ok (tokenAttrs attrs) := by
  rw [List.mapM_map]
  induction attrs with
  | nil => rfl
  | cons a attrs ih =>
    have hname : Text.lowered a.1.toList = a.1.toList := (hw.names _ (List.mem_cons_self ..)).small
    rw [SpellsValues, List.forall_mem_cons] at hs
    rw [List.mapM_cons, ih hw.tail hs.2]
    simp only [Function.comp, rawValue, decodeValue_spelled hs.1, hname, String.ofList_toList]
    rfl

/-- The gap behind the name of a written start tag: a blank if attributes follow. -/
theorem skipGap_spelled (spell : Char → List Char) (hw : ReadAttrs attrs) (rest : List Char) :
    (attrs = [] ∧ skipGap (spelledAttrs spell attrs ++ '>' :: rest) = spelledAttrs spell attrs ++ '>' :: rest) ∨
      (skipGap (spelledAttrs spell attrs ++ '>' :: rest)).length + 1 =
        (spelledAttrs spell attrs ++ '>' :: rest).length := by
  rcases spelledAttrs_cases spell hw with rfl | ⟨c, cs, hc, hcs⟩
  · exact .inl ⟨rfl, rfl⟩
  · rw [hcs, List.cons_append, List.cons_append, skipGap_blank, skipGap_nameChar hc]
    exact .inr rfl

/-- **A written start tag is one token**, whichever way its values are written. -/
theorem startTag_spelled {tag : String} (ht : isTagName tag = true) (hw : ReadAttrs attrs)
    (hs : SpellsValues spell attrs) (rest : List Char) :
    startTag (tag.toList ++ (spelledAttrs spell attrs ++ '>' :: rest)) =
      .ok (.whole [.startTag tag (tokenAttrs attrs) false] rest) := by
  obtain ⟨hname, _, _⟩ := tagChars ht
  have hstop : ∀ d ∈ (spelledAttrs spell attrs ++ '>' :: rest).head?, isTagNameChar d = false := by
    rcases spelledAttrs_cases spell hw with rfl | ⟨d, ds, _, hds⟩
    · simp [spelledAttrs]; decide
    · rw [hds]; simp; decide
  have htake : (tag.toList ++ (spelledAttrs spell attrs ++ '>' :: rest)).takeWhile isTagNameChar = tag.toList :=
    Text.takeWhile_append_stop (fun d hd => isTagNameChar_of_isNameChar (hname d hd)) hstop
  have hfuel : (spelledAttrs spell attrs ++ '>' :: rest).length ≤
      (skipGap (spelledAttrs spell attrs ++ '>' :: rest)).length + 1 := by
    rcases skipGap_spelled spell hw rest with ⟨_, hgap⟩ | hgap
    · rw [hgap]; exact Nat.le_succ _
    · exact Nat.le_of_eq hgap.symm
  have hready : (decide ((skipGap (spelledAttrs spell attrs ++ '>' :: rest)).length <
      (spelledAttrs spell attrs ++ '>' :: rest).length) ||
        tag.toList.getLast?.any fun c => isQuote c || Text.isBlank c) = true ∨ attrs = [] := by
    rcases skipGap_spelled spell hw rest with ⟨hnil, _⟩ | hgap
    · exact .inr hnil
    · exact .inl (by rw [decide_eq_true (by omega), Bool.true_or])
  have hattrs := takeAttrs_spelled hw hs hfuel hready
  unfold startTag
  simp only [htake, List.drop_left, hattrs, lowered_of_isNameChar hname, String.ofList_toList]
  exact congrArg (fun attrs : Except Fault (List (String × String)) => attrs >>= fun attrs =>
    pure (Construct.whole [.startTag tag attrs false] rest)) (mapM_tokenAttrs hw hs)

/-- A step takes a written start tag. -/
theorem step_spelled {tag : String} (ht : isTagName tag = true) (hw : ReadAttrs attrs)
    (hs : SpellsValues spell attrs) (last : Bool) (rest : List Char) :
    step last ('<' :: (tag.toList ++ (spelledAttrs spell attrs ++ '>' :: rest))) =
      .ok (.go [.startTag tag (tokenAttrs attrs) false] (opensRaw [.startTag tag (tokenAttrs attrs) false])
        rest) := by
  obtain ⟨hname, _, c, cs, hcs, hletter⟩ := tagChars ht
  have hstart := startTag_spelled ht hw hs rest
  rw [step]
  rw [hcs, List.cons_append] at hstart ⊢
  have hc : isNameChar c = true := hname c (by rw [hcs]; exact List.mem_cons_self ..)
  have hne : c ≠ '/' ∧ c ≠ '?' ∧ c ≠ '!' := by
    and_intros <;> exact ne_of_isNameChar hc (by decide)
  unfold tagStep
  extract_lets finish
  split
  · exact absurd (List.cons.inj ‹_›).1 hne.1
  · exact absurd (List.cons.inj ‹_›).1 hne.2.1
  · exact absurd (List.cons.inj ‹_›).1 hne.2.2
  · rename_i he
    obtain ⟨rfl, rfl⟩ := List.cons.inj he
    rw [if_pos hletter, hstart]
    rfl
  · cases ‹_ = []›

end Spelling

theorem opensRaw_startTag {tag : String} (hraw : tag ∉ rawElements) (attrs : List (String × String)) :
    opensRaw [.startTag tag attrs false] = none := by
  simp [opensRaw, hraw]

theorem startTagText_toList (tag : String) (attrs : Attrs) (rest : List Char) :
    (startTagText tag attrs).toList ++ rest = '<' :: (tag.toList ++ (attrsChars attrs ++ '>' :: rest)) := by
  simp [startTagText, attrsChars]

/-- A step takes a start tag as it is rendered. -/
theorem step_startTag {tag : String} {attrs : Attrs} (ht : isTagName tag = true) (hraw : tag ∉ rawElements)
    (hw : ReadAttrs attrs) (last : Bool) (rest : List Char) :
    step last ((startTagText tag attrs).toList ++ rest) =
      .ok (.go [.startTag tag (tokenAttrs attrs) false] none rest) := by
  rw [startTagText_toList, attrsChars_eq hw, step_spelled ht hw (spellsValues_quotedChar attrs),
    opensRaw_startTag hraw]

/-- A step takes a written end tag. -/
theorem step_endTag {tag : String} (ht : isTagName tag = true) (last : Bool) (rest : List Char) :
    step last ('<' :: '/' :: (tag.toList ++ '>' :: rest)) = .ok (.go [.endTag tag] none rest) := by
  obtain ⟨hname, hend, c, cs, hcs, hletter⟩ := tagChars ht
  have hne : ∀ d ∈ tag.toList, (d != '>') = true := fun d hd =>
    bne_iff_ne.2 (ne_of_isNameChar (hname d hd) (by decide))
  have hsplit : splitAt? '>' (tag.toList ++ '>' :: rest) = some (tag.toList, rest) := by
    have htake : (tag.toList ++ '>' :: rest).takeWhile (· != '>') = tag.toList :=
      Text.takeWhile_append_stop hne (by simp)
    simp only [splitAt?, htake, List.drop_left]
  have hplain : plainEndName? tag.toList = some tag.toList := by
    have hblank : tag.toList.dropWhile Text.isBlank = tag.toList := by
      rw [hcs, List.dropWhile_cons_of_neg]
      simp [isBlank_of_isNameChar (hname c (by rw [hcs]; exact List.mem_cons_self ..))]
    have htake : tag.toList.takeWhile isEndNameChar = tag.toList := by
      rw [← List.append_nil tag.toList, Text.takeWhile_append_stop (by simpa using hend) (by simp), List.append_nil]
    simp only [plainEndName?, hblank, htake]
    rw [hcs]
    simp [hletter]
  have hend : endTag (tag.toList ++ '>' :: rest) = .whole [.endTag tag] rest := by
    simp only [endTag, hsplit, hplain, lowered_of_isNameChar hname, String.ofList_toList]
  rw [step, tagStep, hend]
  rfl

/-- No comment ends before characters without `>`. -/
theorem afterDashes?_comment {cs : List Char} (hcs : '>' ∉ cs) (hne : cs ≠ []) (rest : List Char) :
    afterDashes? (cs ++ '-' :: '-' :: '>' :: rest) = none := by
  have hhead : ∀ (ds more left : List Char), '>' ∉ ds →
      (ds ++ '-' :: more).dropWhile Text.isBlank ≠ '>' :: left := by
    intro ds more left hds he
    induction ds with
    | nil => exact absurd (List.cons.inj he).1 (by decide)
    | cons d ds ih =>
      rw [List.mem_cons, not_or] at hds
      rw [List.cons_append, List.dropWhile_cons] at he
      split at he
      · exact ih hds.2 he
      · exact hds.1 (List.cons.inj he).1.symm
  unfold afterDashes?
  split
  · rename_i more he
    have hmore : ∀ left, more.dropWhile Text.isBlank ≠ '>' :: left := by
      match cs, hne with
      | [c], _ =>
        obtain rfl : '-' :: '>' :: rest = more := (List.cons.inj (List.cons.inj he).2).2
        exact fun left => hhead [] _ left (by simp)
      | c :: d :: cs, _ =>
        obtain rfl : cs ++ '-' :: '-' :: '>' :: rest = more := (List.cons.inj (List.cons.inj he).2).2
        exact fun left => hhead cs _ left (by simp_all)
    split
    · exact absurd ‹_› (hmore _)
    · rfl
  · rfl

/-- A comment without `>` ends at the first place where one can. -/
theorem splitBefore?_comment {cs : List Char} (hcs : '>' ∉ cs) (rest : List Char) :
    splitBefore? afterDashes? (cs ++ '-' :: '-' :: '>' :: rest) = some (cs, rest) := by
  induction cs with
  | nil => rfl
  | cons c cs ih =>
    have hnone := afterDashes?_comment hcs (List.cons_ne_nil _ _) rest
    rw [List.mem_cons, not_or] at hcs
    rw [List.cons_append] at hnone ⊢
    rw [splitBefore?, hnone, ih hcs.2]
    rfl

/-- A step takes a written comment. -/
theorem step_comment {cs : List Char} (hcs : '>' ∉ cs) (last : Bool) (rest : List Char) :
    step last ((commentLeaf cs).toList ++ rest) = .ok (.go [.comment cs] none rest) := by
  have hchars : (commentLeaf cs).toList ++ rest =
      '<' :: '!' :: '-' :: '-' :: (cs ++ '-' :: '-' :: '>' :: rest) := by
    simp [commentLeaf]
  rw [hchars, step, tagStep]
  simp only [declaration, upTo, splitBefore?_comment hcs]
  rfl

/-! ### Passes -/

/-- `ts` are the tokens of the whole of `cs`, whichever pass reads it. -/
def Lexes (cs : List Char) (ts : List Token) : Prop :=
  ∀ last fuel, cs.length < fuel → pass last fuel none cs = .ok (ts, none, [])

/-- The text ends here, or a tag or a comment begins. -/
def Boundary (cs : List Char) : Prop := cs = [] ∨ ∃ rest, cs = '<' :: rest

theorem Lexes.nil : Lexes [] [] := by
  intro last fuel hfuel
  obtain ⟨fuel, rfl⟩ : ∃ k, fuel = k + 1 := ⟨fuel - 1, by omega⟩
  rfl

/-- What one step takes comes before what the next ones do. -/
theorem Lexes.step {cs rest : List Char} {new ts : List Token} (hne : cs ≠ [])
    (hstep : ∀ last, step last (cs ++ rest) = .ok (.go new none rest)) (h : Lexes rest ts) :
    Lexes (cs ++ rest) (new ++ ts) := by
  intro last fuel hfuel
  obtain ⟨fuel, rfl⟩ : ∃ k, fuel = k + 1 := ⟨fuel - 1, by omega⟩
  obtain ⟨c, cs, rfl⟩ := List.exists_cons_of_ne_nil hne
  have hmore := h last fuel (by simp at hfuel; omega)
  have hs := hstep last
  rw [List.cons_append] at hs ⊢
  simp only [pass, hs, bind, Except.bind, hmore]
  rfl

theorem Lexes.startTag {tag : String} {attrs : Attrs} (ht : isTagName tag = true) (hraw : tag ∉ rawElements)
    (hw : ReadAttrs attrs) {rest : List Char} {ts : List Token} (h : Lexes rest ts) :
    Lexes ((startTagText tag attrs).toList ++ rest) (.startTag tag (tokenAttrs attrs) false :: ts) :=
  .step (by simp [startTagText]) (fun last => step_startTag ht hraw hw last rest) h

theorem Lexes.endTag {tag : String} (ht : isTagName tag = true) {rest : List Char} {ts : List Token}
    (h : Lexes rest ts) : Lexes ('<' :: '/' :: (tag.toList ++ '>' :: rest)) (.endTag tag :: ts) := by
  have hstep : Lexes (('<' :: '/' :: (tag.toList ++ ['>'])) ++ rest) ([.endTag tag] ++ ts) :=
    .step (by simp) (fun last => by simpa using step_endTag ht last rest) h
  simpa using hstep

theorem Lexes.comment {cs : List Char} (hcs : '>' ∉ cs) {rest : List Char} {ts : List Token}
    (h : Lexes rest ts) : Lexes ((commentLeaf cs).toList ++ rest) (.comment cs :: ts) :=
  .step (by simp [commentLeaf]) (fun last => step_comment hcs last rest) h

/-- The tokens of a text that is read to its end. -/
theorem tokens_of_lexes {s : String} {ts : List Token} (h : Lexes s.toList ts) : tokens s = .ok ts := by
  have hfirst := h false (s.toList.length + 1) (Nat.lt_succ_self _)
  simp [tokens, hfirst, bind, Except.bind, pass, pure, Except.pure]

/-- Characters that are written as they are come before a reference, a tag, a comment or nothing. -/
theorem lexes_run {cs rest : List Char} {ts : List Token} (hcs : ∀ c ∈ cs, isEscaped c = false)
    (hrest : ∀ c ∈ rest.head?, c = '<' ∨ c = '&') (h : Lexes rest ts) :
    ∃ pieces : List (List Char), pieces.flatten = cs ∧ Lexes (cs ++ rest) (pieces.map Token.text ++ ts) := by
  cases cs with
  | nil => exact ⟨[], rfl, h⟩
  | cons c cs =>
    have hplain : ∀ d ∈ c :: cs, (!(d == '<' || d == '&')) = true := by
      intro d hd
      have := hcs d hd
      simp only [isEscaped, Bool.or_eq_false_iff] at this
      simp [this.1]
    have htake : (c :: cs ++ rest).takeWhile (fun c => !(c == '<' || c == '&')) = c :: cs :=
      Text.takeWhile_append_stop hplain fun d hd => by rcases hrest d hd with rfl | rfl <;> rfl
    have hne : c ≠ '<' ∧ c ≠ '&' := by simpa using hplain c (List.mem_cons_self ..)
    refine ⟨[c :: cs], by simp, .step (List.cons_ne_nil _ _) (fun last => ?_) h⟩
    unfold Markup.step
    split
    · exact absurd (List.cons.inj ‹_›).1 hne.1
    · exact absurd (List.cons.inj ‹_›).1 hne.2
    · simp only [htake, List.drop_left]
      rfl

/-- **A text leaf is read as its characters, in pieces.** -/
theorem lexes_text (cs : List Char) {rest : List Char} {ts : List Token} (hrest : Boundary rest)
    (h : Lexes rest ts) :
    ∃ pieces : List (List Char), pieces.flatten = cs ∧
      Lexes (escaped cs ++ rest) (pieces.map Token.text ++ ts) := by
  -- the characters since the last reference are taken at once
  suffices hrun : ∀ run, (∀ c ∈ run, isEscaped c = false) → ∃ pieces : List (List Char),
      pieces.flatten = run ++ cs ∧ Lexes (run ++ (escaped cs ++ rest)) (pieces.map Token.text ++ ts) from
    hrun [] (by simp)
  induction cs with
  | nil =>
    intro run hplain
    rw [List.append_nil]
    refine lexes_run hplain ?_ h
    rcases hrest with rfl | ⟨more, rfl⟩ <;> simp [escaped]
  | cons c cs ih =>
    intro run hplain
    rw [escaped, List.flatMap_cons, List.append_assoc]
    cases hc : isEscaped c with
    | false =>
      obtain ⟨pieces, hflat, hlex⟩ := ih (run ++ [c]) (by simpa [or_imp, forall_and] using ⟨hplain, hc⟩)
      rw [List.append_assoc] at hflat hlex
      exact ⟨pieces, hflat, by rwa [escapedChar_of_not_isEscaped hc]⟩
    | true =>
      obtain ⟨pieces, hflat, hlex⟩ := ih [] (by simp)
      have hne : ∃ ref, escapedChar c = '&' :: ref := by
        simp only [isEscaped, Bool.or_eq_true, beq_iff_eq] at hc
        rcases hc with (rfl | rfl) | rfl <;> exact ⟨_, rfl⟩
      obtain ⟨ref, href⟩ := hne
      have hstep := Lexes.step (by rw [href]; exact List.cons_ne_nil _ _)
        (fun last => step_reference hc last _) hlex
      obtain ⟨before, hbefore, hall⟩ := lexes_run hplain (by simp [href]) hstep
      refine ⟨before ++ [c] :: pieces, by simp [hbefore, hflat], ?_⟩
      simpa [escaped] using hall

end Markup
end PageComposer
