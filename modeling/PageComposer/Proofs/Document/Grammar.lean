/-
# Sources in the supported grammar

A source in the supported grammar is made of plain text and of attributes with one placeholder each
(`AttributeSlots.Chunk`). Rewriting it replaces each placeholder by what stands for its slot and leaves all else
as it is, whatever characters the slots hold (`rewrite_chunks`).

| text | no placeholder opens in it, since |
| --- | --- |
| plain text, the value around a placeholder | it holds no `<yield` (`free_of_not_infix`) |
| the name of an attribute behind plain text | an opening needs a blank behind `<yield` (`free_name`) |
| the rest of a placeholder, up to a double quote | it holds no `<`, or its tag opens no other (`Embedded.Supported.free`) |

So no match begins in plain text (`parts_gap`), and the match in an attribute is the one that is written there
(`parts_attribute`). Two sources that are not of the grammar show what it asks for beside the form of each
placeholder (`rewrite_beyond_grammar`).
-/

import PageComposer.Proofs.Document.Matches
import PageComposer.Proofs.Markup.Lexing

namespace PageComposer
namespace AttributeSlots

/-! ### Openings -/

/-- Whether a text begins with the opening of a placeholder. -/
def Opens (cs : List Char) : Prop := ∃ o, Opening o ∧ o <+: cs

/-- No placeholder opens in `cs` where `rest` follows. -/
def Free (cs rest : List Char) : Prop := ∀ t, t <:+ cs → t ≠ [] → ¬Opens (t ++ rest)

theorem opens_of_placeholder? {cs : List Char} {p : Written} (h : placeholder? cs = some p) : Opens cs := by
  obtain ⟨o, ho, _, _, _, _, _, _, _, rfl⟩ := placeholder?_eq_some.1 h
  exact ⟨o, ho, List.prefix_append _ _⟩

/-- A beginning without a character lies before it. -/
theorem prefix_of_prefix_append {o t rest : List Char} {c : Char} (hc : c ∉ o) (h : o <+: t ++ c :: rest) :
    o <+: t := by
  rcases List.prefix_or_prefix_of_prefix h (List.prefix_append t _) with h' | ⟨o', rfl⟩
  · exact h'
  · rw [List.prefix_append_right_inj] at h
    cases o' with
    | nil => simp
    | cons x o' =>
      obtain ⟨rfl, _⟩ := List.cons_prefix_cons.1 h
      simp at hc

/-- A beginning begins with the same character. -/
theorem prefix_head {o cs : List Char} {c : Char} (h : o <+: c :: cs) : ∀ x ∈ o.head?, x = c := by
  cases o with
  | nil => simp
  | cons y o => simpa using (List.cons_prefix_cons.1 h).1

theorem Opening.yield_prefix {o : List Char} (h : Opening o) : "<yield".toList <+: o := by
  obtain ⟨_, _, _⟩ := h
  exact List.prefix_append _ _

theorem Opening.angle_mem {o : List Char} (h : Opening o) : '<' ∈ o :=
  h.yield_prefix.subset (by decide)

theorem Opening.head {o : List Char} (h : Opening o) : o.head? = some '<' := by
  obtain ⟨_, _, _⟩ := h
  rfl

/-- A placeholder opens at `<`. -/
theorem free_of_not_mem {cs : List Char} (h : '<' ∉ cs) (rest : List Char) : Free cs rest := by
  rintro t ht hne ⟨o, ho, hpre⟩
  obtain ⟨c, t, rfl⟩ := List.exists_cons_of_ne_nil hne
  obtain ⟨more, rfl⟩ := ht
  cases o with
  | nil => cases ho.head
  | cons x o =>
    obtain ⟨rfl, _⟩ := List.cons_prefix_cons.1 hpre
    obtain rfl := Option.some.inj ho.head
    simp at h

/-- Text without `<yield` is free where a character follows that is not in the word, or nothing. -/
theorem free_of_not_infix {cs rest : List Char} (h : ¬"<yield".toList <:+: cs)
    (hrest : ∀ c ∈ rest.head?, c ∉ "yield".toList) : Free cs rest := by
  rintro t ht hne ⟨o, ho, hpre⟩
  have hword : "<yield".toList = '<' :: "yield".toList := rfl
  have hyield := ho.yield_prefix.trans hpre
  refine h (List.IsInfix.trans (List.IsPrefix.isInfix ?_) ht.isInfix)
  obtain ⟨c, t, rfl⟩ := List.exists_cons_of_ne_nil hne
  rw [hword, List.cons_append, List.cons_prefix_cons] at hyield
  rw [hword, List.cons_prefix_cons]
  refine ⟨hyield.1, ?_⟩
  cases rest with
  | nil => simpa only [List.append_nil] using hyield.2
  | cons x rest => exact prefix_of_prefix_append (hrest x rfl) hyield.2

/-- An end tag opens no placeholder. -/
theorem free_endTag {rest : List Char} : Free "</yield>".toList rest := by
  have hword : "<yield".toList = '<' :: "yield".toList := rfl
  have hend : "</yield>".toList = '<' :: '/' :: "yield>".toList := rfl
  have hinner : Free ('/' :: "yield>".toList) rest := free_of_not_mem (by decide) rest
  rw [hend]
  rintro t ht hne ⟨o, ho, hpre⟩
  rcases List.suffix_cons_iff.1 ht with rfl | ht
  · have hyield := ho.yield_prefix.trans hpre
    rw [hword, List.cons_append, List.cons_append, List.cons_prefix_cons] at hyield
    exact absurd (prefix_head hyield.2 'y' rfl) (by decide)
  · exact hinner t ht hne ⟨o, ho, hpre⟩

theorem Free.append {xs ys rest : List Char} (hx : Free xs (ys ++ rest)) (hy : Free ys rest) :
    Free (xs ++ ys) rest := by
  intro t ht hne
  rcases List.suffix_or_suffix_of_suffix ht (List.suffix_append xs ys) with ht | ⟨t', rfl⟩
  · exact hy t ht hne
  · rw [List.suffix_append_self_iff] at ht
    rw [List.append_assoc]
    by_cases hne' : t' = []
    · subst hne'
      exact hy _ List.suffix_rfl hne
    · exact hx t' ht hne'

theorem Free.suffix {xs ys rest : List Char} (h : Free xs rest) (hs : ys <:+ xs) : Free ys rest :=
  fun t ht hne => h t (ht.trans hs) hne

/-- Where no placeholder opens up to a quote, no value ends behind one. -/
theorem splice?_free {cs rest : List Char} (h : Free cs rest) (hrest : ∀ c ∈ rest.head?, c = '"') :
    splice? (cs ++ rest) = none := by
  induction cs with
  | nil =>
    cases rest with
    | nil => rfl
    | cons c rest =>
      obtain rfl := hrest c rfl
      rfl
  | cons c cs ih =>
    rw [List.cons_append, splice?, ih (h.suffix (List.suffix_cons ..))]
    split
    · rfl
    · have hopen : ¬Opens (c :: cs ++ rest) := h _ List.suffix_rfl (List.cons_ne_nil _ _)
      have hnone : placeholder? (c :: (cs ++ rest)) = none :=
        Option.eq_none_iff_forall_ne_some.2 fun p hp => hopen (opens_of_placeholder? hp)
      simp [spliceHere?, hnone]

/-- A value with a placeholder may begin with anything but a quote. -/
theorem splice?_append {before cs : List Char} {s : Splice} (hb : '"' ∉ before) (h : splice? cs = some s) :
    splice? (before ++ cs) = some { s with value := before ++ s.value } := by
  induction before with
  | nil => exact h
  | cons c before ih =>
    rw [List.mem_cons, not_or] at hb
    rw [List.cons_append, splice?, if_neg (by simpa using Ne.symm hb.1), ih hb.2]
    rfl

/-! ### The supported grammar -/

/-- An attribute with a placeholder in its value. -/
structure Embedded where
  /-- The name of the attribute. -/
  attr : List Char
  /-- The value before the placeholder. -/
  before : List Char
  /-- The blanks behind `<yield`. -/
  blanks : List Char
  /-- The quote around the name of the slot. -/
  quote : Char
  /-- The name of the slot. -/
  name : List Char
  /-- What else stands in the opening tag. -/
  more : List Char
  /-- The text that stands for an unbound slot. -/
  ownText : List Char
  /-- The value behind the placeholder. -/
  after : List Char
  deriving Repr, DecidableEq

namespace Embedded

variable (e : Embedded)

/-- The placeholder as it is written, before a text. -/
def placeholder (rest : List Char) : List Char :=
  "<yield".toList ++ (e.blanks ++ ("name=".toList ++ e.quote :: (e.name ++ e.quote :: (e.more ++ '>' ::
    (e.ownText ++ ("</yield>".toList ++ rest))))))

/-- The value as it is written, before a text. -/
def value (rest : List Char) : List Char := e.before ++ e.placeholder (e.after ++ rest)

/-- The attribute as it is written. -/
def source : List Char := e.attr ++ '=' :: '"' :: e.value ['"']

/-- What stands for the placeholder. -/
def replacement (slots : SlotMap) : List Char :=
  match slots.get? (String.ofList e.name) with
  | some content => (Content.flatten content).toList
  | none => e.ownText

/-- The attribute with its placeholder replaced. -/
def output (slots : SlotMap) : List Char :=
  e.attr ++ '=' :: '"' :: (e.before ++ (e.replacement slots ++ (e.after ++ ['"'])))

/-- The match that the value is, before a text. -/
def splice (rest : List Char) : Splice := ⟨e.value [], e.name, e.ownText, rest⟩

/-- The parts of the attribute are of the form that the grammar asks for. -/
structure WellFormed : Prop where
  attr_ne : e.attr ≠ []
  attr : ∀ c ∈ e.attr, isNameChar c = true
  before_quote : '"' ∉ e.before
  before : ¬"<yield".toList <:+: e.before
  blanks_ne : e.blanks ≠ []
  blanks : ∀ c ∈ e.blanks, Text.isBlank c = true
  quote : isQuote e.quote = true
  name_ne : e.name ≠ []
  name : ∀ c ∈ e.name, isQuote c = false
  more : '>' ∉ e.more
  ownText_angle : '<' ∉ e.ownText
  ownText : ∀ c ∈ e.ownText, isQuote c = false
  after_quote : '"' ∉ e.after
  after : ¬"<yield".toList <:+: e.after

/-- The form is checked character by character. -/
theorem wellFormed_iff : e.WellFormed ↔
    e.attr ≠ [] ∧ e.attr.all isNameChar ∧ '"' ∉ e.before ∧ ¬"<yield".toList <:+: e.before ∧ e.blanks ≠ [] ∧
      e.blanks.all Text.isBlank ∧ isQuote e.quote ∧ e.name ≠ [] ∧ (e.name.all fun c => !isQuote c) ∧ '>' ∉ e.more ∧
      '<' ∉ e.ownText ∧ (e.ownText.all fun c => !isQuote c) ∧ '"' ∉ e.after ∧ ¬"<yield".toList <:+: e.after := by
  simp only [List.all_eq_true, Bool.not_eq_true']
  constructor
  · rintro ⟨h₁, h₂, h₃, h₄, h₅, h₆, h₇, h₈, h₉, h₁₀, h₁₁, h₁₂, h₁₃, h₁₄⟩
    exact ⟨h₁, h₂, h₃, h₄, h₅, h₆, h₇, h₈, h₉, h₁₀, h₁₁, h₁₂, h₁₃, h₁₄⟩
  · rintro ⟨h₁, h₂, h₃, h₄, h₅, h₆, h₇, h₈, h₉, h₁₀, h₁₁, h₁₂, h₁₃, h₁₄⟩
    exact ⟨h₁, h₂, h₃, h₄, h₅, h₆, h₇, h₈, h₉, h₁₀, h₁₁, h₁₂, h₁₃, h₁₄⟩

/-- The attribute is of the supported grammar: it is well formed, and behind a single quote no other placeholder
opens in the same tag. -/
structure Supported : Prop extends e.WellFormed where
  single : e.quote = '\'' → ∀ o, Opening o → ¬o <:+: e.name ++ e.quote :: e.more

variable {e}

/-- The placeholder is read as it is written. -/
theorem Supported.placeholder? (h : e.Supported) (rest : List Char) :
    AttributeSlots.placeholder? (e.placeholder rest) = some ⟨e.name, e.ownText, rest⟩ := by
  refine placeholder?_eq_some.2 ⟨_, .mk h.blanks_ne h.blanks h.quote, e.quote, e.more, h.quote, h.name_ne, h.name, h.more,
    h.ownText_angle, ?_⟩
  unfold placeholder
  simp

theorem placeholder_cons (e : Embedded) (rest : List Char) :
    e.placeholder rest = '<' :: ("yield".toList ++ (e.blanks ++ ("name=".toList ++ e.quote :: (e.name ++
      e.quote :: (e.more ++ '>' :: (e.ownText ++ ("</yield>".toList ++ rest))))))) := rfl

theorem placeholder_append (e : Embedded) (xs ys : List Char) :
    e.placeholder xs ++ ys = e.placeholder (xs ++ ys) := by
  unfold placeholder
  simp

theorem value_append (e : Embedded) (xs ys : List Char) : e.value xs ++ ys = e.value (xs ++ ys) := by
  simp [value, placeholder_append]

/-- No other placeholder opens in the value before a double quote. -/
theorem Supported.free (h : e.Supported) (rest : List Char) :
    ∃ cs more, e.placeholder (e.after ++ '"' :: rest) = '<' :: (cs ++ '"' :: more) ∧ Free cs ('"' :: more) := by
  have hblanks : '<' ∉ e.blanks := fun hc => absurd (h.blanks _ hc) (by decide)
  have hbegin : '<' ∉ "yield".toList ++ (e.blanks ++ "name=".toList) := by
    simp only [List.mem_append, not_or]
    exact ⟨by decide, hblanks, by decide⟩
  rcases isQuote_iff.1 h.quote with hq | hq
  · -- behind a double quote nothing more belongs to the value
    refine ⟨"yield".toList ++ (e.blanks ++ "name=".toList), e.name ++ e.quote :: (e.more ++ '>' :: (e.ownText ++
      ("</yield>".toList ++ (e.after ++ '"' :: rest)))), ?_, free_of_not_mem hbegin _⟩
    rw [placeholder_cons, List.append_assoc, List.append_assoc, hq]
  · refine ⟨"yield".toList ++ (e.blanks ++ "name=".toList) ++ ([e.quote] ++ ((e.name ++ e.quote :: e.more) ++
      ('>' :: (e.ownText ++ ("</yield>".toList ++ e.after))))), rest, ?_, ?_⟩
    · rw [placeholder_cons]
      simp only [List.append_assoc, List.cons_append, List.nil_append]
    · refine (free_of_not_mem hbegin _).append ((free_of_not_mem (by simp [hq]) _).append (Free.append ?_ ?_))
      · rintro t ht - ⟨o, ho, hpre⟩
        exact h.single hq o ho ((prefix_of_prefix_append ho.not_mem hpre).isInfix.trans ht.isInfix)
      · have hend : Free ("</yield>".toList ++ e.after) ('"' :: rest) := by
          have hafter : Free e.after ('"' :: rest) := free_of_not_infix h.after (by simp only [List.head?_cons, Option.mem_some_iff, forall_eq']; decide)
          exact free_endTag.append hafter
        have hown : '<' ∉ '>' :: e.ownText := by simp [h.ownText_angle]
        exact (free_of_not_mem hown _).append hend

/-- **The value is a match**, with its name and its own text. -/
theorem Supported.splice? (h : e.Supported) (rest : List Char) :
    AttributeSlots.splice? (e.value ('"' :: rest)) = some (e.splice rest) := by
  obtain ⟨cs, more, hcs, hfree⟩ := h.free rest
  have hnone := splice?_free hfree (by simp)
  have hread := h.placeholder? (e.after ++ '"' :: rest)
  have hlength : (e.placeholder (e.after ++ '"' :: rest)).length - rest.length - 1 =
      (e.placeholder e.after).length := by
    rw [← placeholder_append, List.length_append, List.length_cons]
    omega
  have hhere : AttributeSlots.splice? (e.placeholder (e.after ++ '"' :: rest)) =
      some ⟨e.placeholder e.after, e.name, e.ownText, rest⟩ := by
    have htake : (e.placeholder (e.after ++ '"' :: rest)).take (e.placeholder e.after).length =
        e.placeholder e.after := by
      rw [← placeholder_append, List.take_left]
    rw [hcs] at hread hlength htake ⊢
    rw [AttributeSlots.splice?, if_neg (by simp), hnone]
    simp only [spliceHere?, hread, Option.bind_eq_bind, Option.bind_some, afterFirst?_append h.after_quote, hlength,
      htake]
    rfl
  rw [value, splice?_append h.before_quote hhere]
  simp [splice, value]

end Embedded

/-- The blanks are 29 characters. -/
theorem toNat_of_isBlank {c : Char} (h : Text.isBlank c = true) :
    c.toNat ∈ [9, 10, 11, 12, 13, 28, 29, 30, 31, 32, 0x85, 0xa0, 0x1680, 0x2000, 0x2001, 0x2002, 0x2003, 0x2004,
      0x2005, 0x2006, 0x2007, 0x2008, 0x2009, 0x200a, 0x2028, 0x2029, 0x202f, 0x205f, 0x3000] := by
  simp only [Text.isBlank, Bool.or_eq_true, Bool.and_eq_true, decide_eq_true_eq, beq_iff_eq] at h
  simp only [List.mem_cons, List.not_mem_nil, or_false]
  omega

/-- No blank stands in the name of an attribute. -/
theorem isNameChar_of_isBlank {c : Char} (h : Text.isBlank c = true) : isNameChar c = false := by
  have hall : ∀ n ∈ [9, 10, 11, 12, 13, 28, 29, 30, 31, 32, 0x85, 0xa0, 0x1680, 0x2000, 0x2001, 0x2002, 0x2003,
      0x2004, 0x2005, 0x2006, 0x2007, 0x2008, 0x2009, 0x200a, 0x2028, 0x2029, 0x202f, 0x205f, 0x3000],
      isNameChar (Char.ofNat n) = false := by
    decide +kernel
  have hc := hall _ (toNat_of_isBlank h)
  rwa [Char.ofNat_toNat] at hc

theorem Opening.blank {o : List Char} (h : Opening o) :
    ∃ b, Text.isBlank b = true ∧ "<yield".toList ++ [b] <+: o := by
  obtain ⟨hne, hblank, _⟩ := h
  rename_i blanks quote
  obtain ⟨b, blanks, rfl⟩ := List.exists_cons_of_ne_nil hne
  refine ⟨b, hblank b (List.mem_cons_self ..), (List.prefix_append_right_inj _).2 ?_⟩
  exact List.cons_prefix_cons.2 ⟨rfl, List.nil_prefix⟩

/-- No placeholder opens between text without `<yield` and the equals sign of an attribute. -/
theorem free_name {gap name rest : List Char} (hg : ¬"<yield".toList <:+: gap)
    (hn : ∀ c ∈ name, isNameChar c = true) : Free (gap ++ name) ('=' :: rest) := by
  have hangle : '<' ∉ name := fun h => absurd (hn _ h) (by decide)
  refine Free.append ?_ (free_of_not_mem hangle _)
  rintro t ht - ⟨o, ho, hpre⟩
  obtain ⟨b, hb, hblank⟩ := ho.blank
  have hequals : '=' ∉ "<yield".toList ++ [b] := by
    simp only [List.mem_append, List.mem_singleton, not_or]
    refine ⟨by decide, ?_⟩
    rintro rfl
    exact absurd hb (by decide)
  have hword := hblank.trans hpre
  rw [← List.append_assoc] at hword
  replace hword := prefix_of_prefix_append hequals hword
  rcases List.prefix_or_prefix_of_prefix ((List.prefix_append _ _).trans hword) (List.prefix_append t name) with h | h
  · exact hg (h.isInfix.trans ht.isInfix)
  · -- the word would go on into the name, and a blank with it
    obtain ⟨w, hw⟩ := h
    rw [← hw, List.append_assoc, List.prefix_append_right_inj] at hword
    have hmem : b ∈ name := hword.subset (by simp)
    have := hn b hmem
    rw [isNameChar_of_isBlank hb] at this
    cases this

/-- No match begins where no placeholder opens before the next quote. -/
theorem spliceAt?_free {cs rest : List Char} (hne : cs ≠ []) (hfree : splice? (cs.drop 2 ++ rest) = none)
    (hrest : ∀ c ∈ rest.head?, c ≠ '"') (named : Bool) : spliceAt? named (cs ++ rest) = none := by
  cases named with
  | false => rfl
  | true =>
    rw [spliceAt?, if_pos rfl]
    cases hv : after? "=\"".toList (cs ++ rest) with
    | none => rfl
    | some value =>
      have hcs : cs ++ rest = '=' :: '"' :: value := after?_eq_some.1 hv
      rcases cs with _ | ⟨c, _ | ⟨d, more⟩⟩
      · exact absurd rfl hne
      · have hr : rest = '"' :: value := (List.cons.inj hcs).2
        exact absurd rfl (hrest '"' (by rw [hr]; rfl))
      · have hmore : more ++ rest = value := (List.cons.inj (List.cons.inj hcs).2).2
        rw [Option.bind_some, ← hmore]
        exact hfree

/-- Where no match begins in a text, its parts are its characters. -/
theorem parts_chars {cs rest : List Char}
    (h : ∀ t, t <:+ cs → t ≠ [] → ∀ named, spliceAt? named (t ++ rest) = none) (named : Bool) :
    ∃ named', parts named (cs ++ rest) = cs.map .char ++ parts named' rest := by
  induction cs generalizing named with
  | nil => exact ⟨named, rfl⟩
  | cons c cs ih =>
    have hnone : spliceAt? named (c :: (cs ++ rest)) = none := h _ List.suffix_rfl (List.cons_ne_nil _ _) named
    obtain ⟨named', hparts⟩ := ih (fun t ht => h t (ht.trans (List.suffix_cons ..))) (isNameChar c)
    exact ⟨named', by rw [List.cons_append, parts_none hnone, hparts]; rfl⟩

/-- Text without `<yield` has no parts but its characters. -/
theorem parts_gap {gap : List Char} (hg : ¬"<yield".toList <:+: gap) : parts false gap = gap.map .char := by
  have hfree : Free gap [] := free_of_not_infix hg (by simp)
  have hnone : ∀ t, t <:+ gap → t ≠ [] → ∀ named, spliceAt? named (t ++ []) = none := fun t ht hne named =>
    spliceAt?_free hne (splice?_free (hfree.suffix ((List.drop_suffix 2 t).trans ht)) (by simp)) (by simp) named
  obtain ⟨named', hparts⟩ := parts_chars hnone false
  simpa using hparts

/-- **The parts of text without `<yield` and an attribute** are their characters and the value. -/
theorem parts_attribute {e : Embedded} (h : e.Supported) {gap : List Char} (hg : ¬"<yield".toList <:+: gap)
    (rest : List Char) :
    parts false (gap ++ (e.source ++ rest)) =
      gap.map .char ++ (e.attr.map .char ++ .value (e.splice rest) :: parts false rest) := by
  have hvalue : e.source ++ rest = e.attr ++ '=' :: '"' :: e.value ('"' :: rest) := by
    rw [Embedded.source, List.append_assoc, List.cons_append, List.cons_append, Embedded.value_append]
    rfl
  have hmatch : spliceAt? true ('=' :: '"' :: e.value ('"' :: rest)) = some (e.splice rest) := h.splice? rest
  have hfree : Free (gap ++ e.attr ++ ['=']) ('"' :: e.value ('"' :: rest)) :=
    (free_name hg h.attr).append (free_of_not_mem (by decide) _)
  have hhead : ∀ c ∈ (e.attr ++ '=' :: '"' :: e.value ('"' :: rest)).head?, c ≠ '"' := by
    obtain ⟨a, attr, ha⟩ := List.exists_cons_of_ne_nil h.attr_ne
    rw [ha, List.cons_append, List.head?_cons]
    rintro c hc rfl
    obtain rfl := Option.some.inj hc
    exact absurd (h.attr '"' (by simp [ha])) (by decide)
  have hgap : ∀ t, t <:+ gap → t ≠ [] → ∀ named,
      spliceAt? named (t ++ (e.attr ++ '=' :: '"' :: e.value ('"' :: rest))) = none := by
    intro t ht hne named
    refine spliceAt?_free hne ?_ hhead named
    obtain ⟨gap', rfl⟩ := (List.drop_suffix 2 t).trans ht
    have hend : Free (t.drop 2 ++ e.attr ++ ['=']) ('"' :: e.value ('"' :: rest)) := by
      refine hfree.suffix ?_
      simp only [List.append_assoc]
      exact List.suffix_append _ _
    have hnone := splice?_free hend (by simp)
    simpa only [List.append_assoc, List.cons_append, List.nil_append] using hnone
  obtain ⟨named, hparts⟩ := parts_chars hgap false
  rw [hvalue, hparts, parts_name h.attr_ne h.attr, parts_some hmatch]
  rfl

theorem replaceAll_free {name replacement cs rest : List Char} (h : Free cs rest) {fuel : Nat}
    (hf : cs.length ≤ fuel) :
    replaceAll name replacement fuel (cs ++ rest) = cs ++ replaceAll name replacement (fuel - cs.length) rest := by
  induction cs generalizing fuel with
  | nil => rfl
  | cons c cs ih =>
    obtain ⟨fuel, rfl⟩ : ∃ k, fuel = k + 1 := ⟨fuel - 1, by simp only [List.length_cons] at hf; omega⟩
    simp only [List.length_cons, Nat.add_le_add_iff_right] at hf
    have hnone : AttributeSlots.placeholder? (c :: (cs ++ rest)) = none :=
      Option.eq_none_iff_forall_ne_some.2 fun p hp =>
        h _ List.suffix_rfl (List.cons_ne_nil _ _) (opens_of_placeholder? hp)
    rw [List.cons_append, replaceAll, hnone]
    simp only [List.length_cons, Nat.add_sub_add_right, ih (h.suffix (List.suffix_cons ..)) hf]
    rfl

/-- The placeholder alone is replaced. -/
theorem Embedded.Supported.spliced {e : Embedded} (h : e.Supported) (slots : SlotMap) (rest : List Char) :
    spliced slots (e.splice rest) = e.before ++ (e.replacement slots ++ e.after) := by
  have hbefore : Free e.before (e.placeholder e.after) := by
    rw [Embedded.placeholder_cons]
    exact free_of_not_infix h.before (by simp only [List.head?_cons, Option.mem_some_iff, forall_eq']; decide)
  have hafter : Free e.after [] := free_of_not_infix h.after (by simp)
  have hread : AttributeSlots.placeholder? (e.placeholder e.after) = some ⟨e.name, e.ownText, e.after⟩ :=
    h.placeholder? e.after
  have hlength : e.after.length < (e.placeholder e.after).length := by
    simp only [Embedded.placeholder, List.length_append, List.length_cons]
    omega
  have hvalue : e.value [] = e.before ++ e.placeholder e.after := by
    rw [Embedded.value, List.append_nil]
  have hreplacement : replacementFor slots (e.splice rest) = e.replacement slots := rfl
  rw [AttributeSlots.spliced, hreplacement]
  simp only [Embedded.splice, hvalue]
  rw [replaceAll_free hbefore (by rw [List.length_append]; omega), List.append_cancel_left_eq]
  obtain ⟨fuel, hfuel⟩ : ∃ k, (e.before ++ e.placeholder e.after).length + 1 - e.before.length = k + 1 :=
    ⟨(e.placeholder e.after).length, by rw [List.length_append, Nat.add_assoc, Nat.add_sub_cancel_left]⟩
  have hleft : e.after.length ≤ fuel := by
    rw [List.length_append] at hfuel
    omega
  rw [hfuel]
  rw [Embedded.placeholder_cons] at hread ⊢
  rw [replaceAll, hread]
  have hrest : replaceAll e.name (e.replacement slots) fuel (e.after ++ []) = _ := replaceAll_free hafter hleft
  rw [List.append_nil] at hrest
  have hnil : ∀ n, replaceAll e.name (e.replacement slots) n [] = [] := by
    intro n
    cases n <;> rfl
  simp only [beq_self_eq_true, if_true, hrest, hnil, List.append_nil]

/-! ### Sources of chunks -/

/-- A piece of a source: plain text, or an attribute with a placeholder in its value. -/
inductive Chunk where
  | plain (cs : List Char)
  | embedded (e : Embedded)
  deriving Repr, DecidableEq

/-- A piece as it is written. -/
def Chunk.source : Chunk → List Char
  | .plain cs => cs
  | .embedded e => e.source

/-- A piece as it is rewritten. -/
def Chunk.output (slots : SlotMap) : Chunk → List Char
  | .plain cs => cs
  | .embedded e => e.output slots

/-- The plain text before the first attribute, between each two and behind the last, after more text. -/
def gapsFrom (text : List Char) : List Chunk → List (List Char)
  | [] => [text]
  | .plain cs :: rest => gapsFrom (text ++ cs) rest
  | .embedded _ :: rest => text :: gapsFrom [] rest

/-- The plain text before the first attribute, between each two and behind the last. -/
def gaps (chunks : List Chunk) : List (List Char) := gapsFrom [] chunks

/-- A source in the supported grammar: each attribute is such as the grammar allows, and plain text holds no
`<yield`. -/
structure Grammatical (chunks : List Chunk) : Prop where
  attributes : ∀ e, .embedded e ∈ chunks → e.Supported
  plain : ∀ gap ∈ gaps chunks, ¬"<yield".toList <:+: gap

/-- **Rewriting replaces the placeholders and leaves the rest.** -/
theorem rewrite_chunks {chunks : List Chunk} (h : Grammatical chunks) (slots : SlotMap) :
    rewrite slots (String.ofList (chunks.flatMap Chunk.source)) =
      String.ofList (chunks.flatMap (Chunk.output slots)) := by
  obtain ⟨hattributes, hplain⟩ := h
  rw [← String.toList_inj, rewrite_eq, String.toList_ofList, String.toList_ofList]
  -- the plain text since the last attribute is read together
  suffices hall : ∀ text : List Char, (∀ gap ∈ gapsFrom text chunks, ¬"<yield".toList <:+: gap) →
      Part.writeAll (spliced slots) (parts false (text ++ chunks.flatMap Chunk.source)) =
        text ++ chunks.flatMap (Chunk.output slots) from hall [] hplain
  clear hplain
  induction chunks with
  | nil =>
    intro text hg
    rw [gapsFrom, List.forall_mem_singleton] at hg
    rw [List.flatMap_nil, List.flatMap_nil, List.append_nil, parts_gap hg, Part.writeAll_chars]
  | cons chunk chunks ih =>
    intro text hg
    have hnext := ih fun e he => hattributes e (List.mem_cons_of_mem _ he)
    rw [List.flatMap_cons, List.flatMap_cons]
    cases chunk with
    | plain cs =>
      rw [Chunk.source, Chunk.output, ← List.append_assoc, ← List.append_assoc]
      exact hnext (text ++ cs) hg
    | embedded e =>
      have he := hattributes e (List.mem_cons_self ..)
      rw [gapsFrom, List.forall_mem_cons] at hg
      have hrest := hnext [] hg.2
      rw [List.nil_append, List.nil_append] at hrest
      rw [Chunk.source, Chunk.output, parts_attribute he hg.1]
      simp only [Part.writeAll_append, Part.writeAll_chars, Part.writeAll_value, he.spliced, hrest, Embedded.output]
      simp only [List.append_assoc, List.cons_append, List.nil_append]

/-- A button with two placeholders. -/
def button : List Chunk :=
  [.plain "<button ".toList,
   .embedded ⟨"class".toList, "btn ".toList, " ".toList, '"', "kind".toList, [], "plain".toList, " wide".toList⟩,
   .plain " alt=\"<i".toList, .plain "\" ".toList,
   .embedded ⟨"title".toList, [], "\n".toList, '\'', "t".toList, " optional".toList, [], "!".toList⟩,
   .plain ">Go</button>".toList]

theorem rewrite_button :
    Grammatical button ∧
      rewrite [("t", [.text "\"<yield name=\"kind\">\""])] (String.ofList (button.flatMap Chunk.source)) =
        "<button class=\"btn plain wide\" alt=\"<i\" title=\"\"<yield name=\"kind\">\"!\">Go</button>" := by
  have attributes : ∀ e, .embedded e ∈ button → e.Supported := by
    intro e he
    simp only [button, List.mem_cons, List.not_mem_nil, or_false, reduceCtorEq, false_or, Chunk.embedded.injEq] at he
    rcases he with rfl | rfl
    · exact ⟨(Embedded.wellFormed_iff _).2 (by decide +kernel), fun hq => absurd hq (by decide)⟩
    · exact ⟨(Embedded.wellFormed_iff _).2 (by decide +kernel), fun _ o ho hin => absurd (hin.subset ho.angle_mem) (by decide)⟩
  have hg : Grammatical button := ⟨attributes, by decide +kernel⟩
  exact ⟨hg, (rewrite_chunks hg _).trans (by decide +kernel)⟩

/-- An attribute with a single-quoted name, and another placeholder opening in its tag. -/
def nested : Embedded := ⟨"a".toList, [], " ".toList, '\'', "n".toList, " <yield name='m'".toList, "D".toList, []⟩

/-- Plain text in two pieces. -/
def torn : List Chunk := [.plain "a=\"<yi".toList, .plain "eld name='n'>D</yield>\"".toList]

/-- **What the grammar asks for beside the form of each placeholder is needed.**  Of two placeholders that open in one
tag the second decides, and a placeholder may lie across two pieces of plain text. -/
theorem rewrite_beyond_grammar :
    nested.WellFormed ∧
      rewrite [] (String.ofList nested.source) = "a=\"<yield name='n' D\"" ∧
      String.ofList (nested.output []) = "a=\"D\"" ∧
      (∀ cs, Chunk.plain cs ∈ torn → ¬"<yield".toList <:+: cs) ∧
      rewrite [] (String.ofList (torn.flatMap Chunk.source)) = "a=\"D\"" ∧
      String.ofList (torn.flatMap (Chunk.output [])) = "a=\"<yield name='n'>D</yield>\"" := by
  refine ⟨(Embedded.wellFormed_iff _).2 (by decide +kernel), by decide +kernel, by decide +kernel, ?_, by decide +kernel, by decide +kernel⟩
  intro cs hcs
  simp only [torn, List.mem_cons, List.not_mem_nil, or_false, Chunk.plain.injEq] at hcs
  rcases hcs with rfl | rfl <;> decide +kernel

end AttributeSlots
end PageComposer
