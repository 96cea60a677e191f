/-
# What a pass gives with holes

A text with holes is read like the text itself, whatever stands in the holes, as long as each hole is the value of an
attribute in a start tag to which the first pass comes (`ReadsValues`) and no double quote stands in it. Then the
tokens are the same up to what is read in the holes, and each hole is in one of them (`wholePass_open`).

| what is read | why it is the same |
| --- | --- |
| what ends before a hole | it does not look beyond the equals sign (`nextStep_local`, `tagGap_local`) |
| the attribute of a hole | its value goes up to the next double quote (`nextAttr?_value`) |
| the attributes of a tag, and the tag | the attributes one by one (`ReadsAttrs.opens`), then the end (`tagEnd_open`) |

That a hole is read as a value says where the reader comes to, and this does not depend on what stands there either:
the induction is on the text that is left.
-/

import PageComposer.Proofs.Markup.Parts
import PageComposer.Proofs.Markup.Steps

namespace PageComposer
namespace Markup

open PageComposer.Part (writeAll values holes mem_holes)

/-! ### Where a value is read -/

/-- A value in double quotes, with `rest` behind them, is that of one of the attributes that a text begins with. -/
inductive AttrAt (v rest : List Char) : Bool → List Char → Prop
  | here {ready : Bool} {name : List Char}
      (h : nextAttr? ready (name ++ '=' :: '"' :: (v ++ '"' :: rest)) = some ((name, v), true, skipGap rest)) :
      AttrAt v rest ready (name ++ '=' :: '"' :: (v ++ '"' :: rest))
  | next {ready ready' : Bool} {cs next : List Char} {a : List Char × List Char}
      (h : nextAttr? ready cs = some (a, ready', next)) (there : AttrAt v rest ready' next) : AttrAt v rest ready cs

/-- A value in double quotes, with `rest` behind them, is that of an attribute of a start tag, and the first pass
comes to that tag. -/
inductive ValueAt (v rest : List Char) : Option String → List Char → Prop
  | tag {c : Char} {cs left : List Char} {name : String} {attrs : List (String × String)} {closed : Bool}
      (letter : Text.isAsciiLetter c = true) (whole : startTag (c :: cs) = .ok (.whole [.startTag name attrs closed] left))
      (there : AttrAt v rest (tagReady (c :: cs)) (tagGap (c :: cs))) : ValueAt v rest none ('<' :: c :: cs)
  | next {raw raw' : Option String} {cs next : List Char} {ts : List Token}
      (h : nextStep false raw cs = .ok (.go ts raw' next)) (there : ValueAt v rest raw' next) : ValueAt v rest raw cs

variable {v rest : List Char}

/-- The name of a read attribute is not empty. -/
theorem name_ne_nil {ready ready' : Bool} {cs next name w : List Char}
    (h : nextAttr? ready cs = some ((name, w), ready', next)) : name ≠ [] := by
  cases cs with
  | nil => cases h
  | cons c cs =>
    rw [nextAttr?] at h
    split at h
    · cases h
    · simp only [Option.some.injEq, Prod.mk.injEq] at h
      rw [← h.1.1]
      exact List.cons_ne_nil _ _

/-- A character stands before the value, and nothing behind the attributes stands before what follows it. -/
theorem AttrAt.place {ready : Bool} {cs : List Char} (h : AttrAt v rest ready cs) :
    (∃ n, n :: '=' :: '"' :: (v ++ '"' :: rest) <:+ cs) ∧ (attrsOf ready cs).2.length ≤ rest.length := by
  induction h with
  | @here ready name h =>
    refine ⟨?_, ?_⟩
    · obtain ⟨m, n, rfl⟩ : ∃ m n, name = m ++ [n] := by
        rcases List.eq_nil_or_concat name with hnil | ⟨m, n, rfl⟩
        · exact absurd hnil (name_ne_nil h)
        · exact ⟨m, n, by simp⟩
      exact ⟨n, m, by simp⟩
    · rw [attrsOf_some h]
      exact ((takeAttrs_pieces _ _ _).1.trans (skipGap_suffix rest)).length_le
  | next h there ih =>
    rw [attrsOf_some h]
    exact ⟨ih.1.imp fun n hn => hn.trans ((nextAttr?_tail h).2.trans (List.tail_suffix _)), ih.2⟩

/-- A character stands before the value. -/
theorem ValueAt.place {raw : Option String} {cs : List Char} (h : ValueAt v rest raw cs) :
    ∃ n, n :: '=' :: '"' :: (v ++ '"' :: rest) <:+ cs := by
  induction h with
  | @tag c cs left name attrs closed letter whole there =>
    obtain ⟨n, hn⟩ := there.place.1
    refine ⟨n, hn.trans (((skipGap_suffix _).trans (List.dropWhile_suffix _)).trans (List.suffix_cons ..))⟩
  | next h there ih => exact ih.imp fun n hn => hn.trans ((leaves_of_nextStep h).trans (List.tail_suffix _))

/-! ### Attributes with holes -/

/-- An attribute is read by its name alone, whatever stands in the quotes. -/
theorem nextAttr?_value {ready ready' : Bool} {name w next : List Char}
    (h : nextAttr? ready (name ++ '=' :: '"' :: (v ++ '"' :: rest)) = some ((name, w), ready', next)) {g : List Char}
    (hg : '"' ∉ g) (R : List Char) :
    nextAttr? ready (name ++ '=' :: '"' :: (g ++ '"' :: R)) = some ((name, g), true, skipGap R) := by
  have hsign : ∀ X : List Char, ∀ c ∈ ('=' :: X).head?, isAttrNameChar c = false := by
    intro X c hc
    obtain rfl := Option.some.inj hc
    decide
  obtain ⟨c, m, rfl⟩ := List.exists_cons_of_ne_nil (name_ne_nil h)
  rw [List.cons_append, nextAttr?] at h ⊢
  split at h
  · cases h
  · rename_i hc
    simp only [Option.some.injEq, Prod.mk.injEq, List.cons.injEq, true_and] at h
    have hm : ∀ d ∈ m, isAttrNameChar d = true := by
      rw [← h.1.1]
      exact fun d hd => List.mem_takeWhile_imp hd
    have hrest : (m ++ '=' :: '"' :: (g ++ '"' :: R)).dropWhile isAttrNameChar = '=' :: '"' :: (g ++ '"' :: R) := by
      rw [List.dropWhile_append_of_pos hm, List.dropWhile_cons_of_neg (by decide)]
    rw [if_neg hc]
    simp only [Text.takeWhile_append_stop hm (hsign _), hrest, valueAfter, takeValue?_quoted hg, Bool.or_true]

variable {ι : Type} {f : ι → List Char} {ps : List (Part ι)}

/-- A gap does not reach beyond the equals sign of a hole. -/
theorem skipGap_writeAll (ps : List (Part ι)) :
    ∃ qs, (∀ g : ι → List Char, values g qs = values g ps) ∧
      ∀ g : ι → List Char, skipGap (writeAll g ps) = writeAll g qs := by
  induction ps with
  | nil => exact ⟨[], fun g => rfl, fun g => rfl⟩
  | cons part ps ih =>
    have hstay (hs : ∀ g : ι → List Char, skipGap (writeAll g (part :: ps)) = writeAll g (part :: ps)) :
        ∃ qs, (∀ g : ι → List Char, values g qs = values g (part :: ps)) ∧
          ∀ g : ι → List Char, skipGap (writeAll g (part :: ps)) = writeAll g qs := ⟨_, fun g => rfl, hs⟩
    obtain ⟨qs, hqs, hskip⟩ := ih
    cases part with
    | value i => exact hstay fun g => by rw [Part.writeAll_value, skipGap_cons, if_neg (by decide), if_neg (by decide)]
    | char c =>
      have hgo (hs : ∀ g : ι → List Char, skipGap (writeAll g (.char c :: ps)) = skipGap (writeAll g ps)) :
          ∃ qs, (∀ g : ι → List Char, values g qs = values g (.char c :: ps)) ∧
            ∀ g : ι → List Char, skipGap (writeAll g (.char c :: ps)) = writeAll g qs :=
        ⟨qs, hqs, fun g => by rw [hs, hskip]⟩
      by_cases hc : c = '/'
      · -- whether the slash ends a tag is told by the next part
        have hhead : (∀ g : ι → List Char, (writeAll g ps).head? = some '>') ∨
            ∀ g : ι → List Char, (writeAll g ps).head? ≠ some '>' := by
          rcases ps with _ | ⟨d | i, ps⟩
          · exact .inr fun g => by simp
          · by_cases hd : d = '>'
            · exact .inl fun g => by simp [hd]
            · exact .inr fun g => by simpa using hd
          · exact .inr fun g => by simp
        rcases hhead with hangle | hother
        · exact hstay fun g => by rw [Part.writeAll_char, skipGap_cons, if_pos hc, if_pos (hangle g)]
        · exact hgo fun g => by rw [Part.writeAll_char, skipGap_cons, if_pos hc, if_neg (hother g)]
      · by_cases hb : Text.isBlank c = true
        · exact hgo fun g => by rw [Part.writeAll_char, skipGap_cons, if_neg hc, if_pos hb]
        · exact hstay fun g => by rw [Part.writeAll_char, skipGap_cons, if_neg hc, if_neg hb]

/-- What stands in the holes of a text has no double quote, and is read as `dec` tells. -/
def Fills (g : ι → List Char) (dec : ι → String) (ps : List (Part ι)) : Prop :=
  ∀ i ∈ holes ps, '"' ∉ g i ∧ decodeValue (g i) = .ok (dec i).toList

/-- An attribute whose value may be a hole, with what is read there. -/
def closeAttr (dec : ι → String) (a : String × (String ⊕ ι)) : String × String := (a.1, a.2.elim id dec)

theorem Fills.mono {g : ι → List Char} {dec : ι → String} {qs : List (Part ι)} (h : Fills g dec ps)
    (hs : ∀ x ∈ values f qs, x ∈ values f ps) : Fills g dec qs := by
  intro i hi
  obtain ⟨rest, hx⟩ := (mem_holes (f := f)).1 hi
  exact h i ((mem_holes (f := f)).2 ⟨rest, hs _ hx⟩)

/-- The holes among attributes. -/
def attrHoles {α : Type} (as : List (String × (α ⊕ ι))) : List ι := as.filterMap fun a => a.2.getRight?

/-- The attributes that a text begins with are the same up to what stands in the holes, and so is what they leave. -/
def OpensAttrs (f : ι → List Char) (ready : Bool) (ps : List (Part ι)) : Prop :=
  ∃ (as : List (String × (String ⊕ ι))) (qs : List (Part ι)),
    (∀ x ∈ values f qs, x ∈ values f ps) ∧ holes ps = attrHoles as ++ holes qs ∧
      (attrsOf ready (writeAll f ps)).2 = writeAll f qs ∧
      ∀ g dec, Fills g dec ps → ∃ raws, attrsOf ready (writeAll g ps) = (raws, writeAll g qs) ∧
        raws.mapM readAttr = .ok (as.map (closeAttr dec))

/-- One attribute more. -/
theorem OpensAttrs.cons {ready ready' : Bool} {qs : List (Part ι)} {a : (ι → List Char) → List Char × List Char}
    {o : String × (String ⊕ ι)} (hf : ∀ i ∈ holes ps, '"' ∉ f i)
    (hnext : ∀ g : ι → List Char, (∀ i ∈ holes ps, '"' ∉ g i) →
      nextAttr? ready (writeAll g ps) = some (a g, ready', writeAll g qs))
    (hread : ∀ g dec, Fills g dec ps → readAttr (a g) = .ok (closeAttr dec o))
    (hsub : ∀ x ∈ values f qs, x ∈ values f ps) (hholes : holes ps = attrHoles [o] ++ holes qs)
    (h : OpensAttrs f ready' qs) : OpensAttrs f ready ps := by
  obtain ⟨as, rest, hrest, hmore, hleft, hopen⟩ := h
  have hall : holes ps = attrHoles (o :: as) ++ holes rest := by
    rw [hholes, hmore, ← List.append_assoc]
    exact congrArg (· ++ holes rest) List.filterMap_append.symm
  refine ⟨o :: as, rest, fun x hx => hsub x (hrest x hx), hall, ?_, fun g dec hg => ?_⟩
  · rw [attrsOf_some (hnext f hf), hleft]
  · obtain ⟨raws, hraws, has⟩ := hopen g dec (hg.mono hsub)
    refine ⟨a g :: raws, ?_, ?_⟩
    · rw [attrsOf_some (hnext g fun i hi => (hg i hi).1), hraws]
    · rw [List.mapM_cons, hread g dec hg, has]
      rfl

/-- A given attribute. -/
def givenAttr (a : String × String) : String × (String ⊕ ι) := (a.1, .inl a.2)

@[simp] theorem closeAttr_givenAttr (dec : ι → String) (a : String × String) : closeAttr dec (givenAttr a) = a := rfl

@[simp] theorem attrHoles_givenAttr (as : List (String × String)) : attrHoles (as.map givenAttr : List (String × (String ⊕ ι))) = [] := by
  simp [attrHoles, givenAttr, List.filterMap_map, Function.comp_def]

theorem isHole_quoted (hv : '\'' ∈ v) (rest : List Char) : IsHole ('=' :: '"' :: (v ++ '"' :: rest)) where
  sign := rfl
  quotes := by
    intro c hc
    rcases (by simpa [isQuote] using hc : c = '"' ∨ c = '\'') with rfl | rfl <;> simp [hv]

/-- The attributes that a text begins with can be read, and each hole is the value of one of them or lies behind
them. -/
structure ReadsAttrs (f : ι → List Char) (ready : Bool) (ps : List (Part ι)) : Prop where
  read : ∃ as, (attrsOf ready (writeAll f ps)).1.mapM readAttr = .ok as
  place : ∀ x ∈ values f ps, AttrAt (f x.1) x.2 ready (writeAll f ps) ∨
    ∃ n, n :: '=' :: '"' :: (f x.1 ++ '"' :: x.2) <:+ (attrsOf ready (writeAll f ps)).2

theorem AttrAt.of_next {ready ready' : Bool} {cs next : List Char} {a : List Char × List Char}
    (h : AttrAt v rest ready cs) (hn : nextAttr? ready cs = some (a, ready', next)) (hlong : rest.length < next.length) :
    AttrAt v rest ready' next := by
  cases h with
  | here h =>
    rw [h] at hn
    obtain ⟨-, -, rfl⟩ : _ ∧ _ ∧ skipGap rest = next := by simpa using hn
    have := (skipGap_suffix rest).length_le
    omega
  | next h there =>
    rw [h] at hn
    obtain ⟨-, rfl, rfl⟩ : _ ∧ _ ∧ _ := by simpa using hn
    exact there

/-- What holds of the attributes holds behind the first of them. -/
theorem ReadsAttrs.next {ready ready' : Bool} {qs : List (Part ι)} {a : List Char × List Char}
    (h : ReadsAttrs f ready ps) (hn : nextAttr? ready (writeAll f ps) = some (a, ready', writeAll f qs))
    (hsub : ∀ x ∈ values f qs, x ∈ values f ps) : (∃ b, readAttr a = .ok b) ∧ ReadsAttrs f ready' qs := by
  obtain ⟨as, has⟩ := h.read
  rw [attrsOf_some hn, List.mapM_cons] at has
  cases hb : readAttr a with
  | error e =>
    rw [hb] at has
    cases has
  | ok b =>
    rw [hb] at has
    refine ⟨⟨b, rfl⟩, ?_, fun x hx => ?_⟩
    · cases hbs : (attrsOf ready' (writeAll f qs)).1.mapM readAttr with
      | error e =>
        rw [hbs] at has
        cases has
      | ok bs => exact ⟨bs, rfl⟩
    · rcases h.place x (hsub x hx) with hat | hbeyond
      · have := (Part.suffix_of_mem_values hx).length_le
        simp only [List.length_cons, List.length_append] at this
        exact .inl (hat.of_next hn (by omega))
      · rw [attrsOf_some hn] at hbeyond
        exact .inr hbeyond

/-- **Attributes are read around the holes.** -/
theorem ReadsAttrs.opens {ready : Bool} (hf : ∀ i ∈ holes ps, '"' ∉ f i ∧ '\'' ∈ f i) (h : ReadsAttrs f ready ps) :
    OpensAttrs f ready ps := by
  induction hn : (writeAll f ps).length using Nat.strongRecOn generalizing ps ready with
  | _ n ih =>
    subst hn
    obtain ⟨p, rfl | ⟨i, qs, rfl⟩⟩ := Part.split_first ps
    · -- there is no hole
      obtain ⟨os, hos⟩ := h.read
      simp only [Part.writeAll_chars] at hos
      refine ⟨os.map givenAttr, (attrsOf ready p).2.map .char, by simp, by simp, by simp,
        fun g dec _ => ⟨(attrsOf ready p).1, by simp, ?_⟩⟩
      rw [hos]
      simp [Function.comp_def]
    · have htext (g : ι → List Char) : writeAll g (p.map .char ++ .value i :: qs) =
          p ++ '=' :: '"' :: (g i ++ '"' :: writeAll g qs) := by simp
      have hi : i ∈ holes (p.map .char ++ .value i :: qs : List (Part ι)) := by simp
      have hfirst : (i, writeAll f qs) ∈ values f (p.map .char ++ .value i :: qs) := by simp [values]
      have hH : IsHole ('=' :: '"' :: (f i ++ '"' :: writeAll f qs)) := isHole_quoted (hf i hi).2 _
      have honward {ready' : Bool} {a : List Char × List Char} {qs' : List (Part ι)}
          (hnext : nextAttr? ready (writeAll f (p.map .char ++ .value i :: qs)) = some (a, ready', writeAll f qs'))
          (hsub : ∀ x ∈ values f qs', x ∈ values f (p.map .char ++ .value i :: qs)) : OpensAttrs f ready' qs' := by
        refine ih _ (length_lt_of_nextAttr? hnext) (fun j hj => hf j ?_) (h.next hnext hsub).2 rfl
        obtain ⟨rest, hx⟩ := (mem_holes (f := f)).1 hj
        exact (mem_holes (f := f)).2 ⟨rest, hsub _ hx⟩
      rcases h.place _ hfirst with hat | ⟨n, hbeyond⟩
      · rw [htext] at hat
        generalize hcs : p ++ '=' :: '"' :: (f i ++ '"' :: writeAll f qs) = cs at hat
        cases hat with
        | @here _ name hname =>
          obtain rfl : p = name := List.append_cancel_right hcs
          obtain ⟨qs', hqs', hskip⟩ := skipGap_writeAll qs
          have hsub : ∀ x ∈ values f qs', x ∈ values f (p.map .char ++ .value i :: qs) := by
            intro x hx
            rw [Part.values_chars_append]
            exact List.mem_cons_of_mem _ (hqs' f ▸ hx)
          have hholes : holes (p.map .char ++ .value i :: qs : List (Part ι)) = i :: holes qs' := by
            rw [← Part.values_fst f qs', hqs', Part.values_fst]
            simp
          have hnext (g : ι → List Char) (hg : ∀ j ∈ holes (p.map .char ++ .value i :: qs : List (Part ι)), '"' ∉ g j) :
              nextAttr? ready (writeAll g (p.map .char ++ .value i :: qs)) = some ((p, g i), true, writeAll g qs') := by
            rw [htext, nextAttr?_value hname (hg i hi), hskip]
          refine .cons (o := (String.ofList (Text.lowered p), .inr i)) (fun j hj => (hf j hj).1) hnext (fun g dec hg => ?_)
            hsub hholes (honward (hnext f fun j hj => (hf j hj).1) hsub)
          simp [readAttr, (hg i hi).2, closeAttr]
        | @next _ ready' _ next a hnext there =>
          subst hcs
          obtain ⟨n, hn⟩ := there.place.1
          obtain ⟨q, -, -, hR⟩ := nextAttr?_local hH hnext hn.length_le
          have hq := hR ('=' :: '"' :: (f i ++ '"' :: writeAll f qs))
          rw [hnext] at hq
          obtain rfl : next = q ++ '=' :: '"' :: (f i ++ '"' :: writeAll f qs) := by simpa using hq
          have hopen (g : ι → List Char) : nextAttr? ready (writeAll g (p.map .char ++ .value i :: qs)) =
              some (a, ready', writeAll g (q.map .char ++ .value i :: qs)) := by
            rw [htext, hR]
            simp
          have hsub : ∀ x ∈ values f (q.map .char ++ .value i :: qs), x ∈ values f (p.map .char ++ .value i :: qs) := by
            simp
          obtain ⟨⟨b, hb⟩, -⟩ := h.next (hopen f) hsub
          exact .cons (o := givenAttr b) (fun j hj => (hf j hj).1) (fun g _ => hopen g) (fun g dec _ => hb) hsub
            (by simp [attrHoles, givenAttr]) (honward (hopen f) hsub)
      · rw [htext] at hbeyond
        obtain ⟨as, q, -, hR⟩ := attrsOf_local hH hbeyond.length_le
        have hopen (g : ι → List Char) : attrsOf ready (writeAll g (p.map .char ++ .value i :: qs)) =
            (as, writeAll g (q.map .char ++ .value i :: qs)) := by
          rw [htext, hR]
          simp
        obtain ⟨os, hos⟩ := h.read
        rw [hopen] at hos
        exact ⟨os.map givenAttr, q.map .char ++ .value i :: qs, by simp, by simp, by rw [hopen], fun g dec _ =>
          ⟨as, hopen g, by rw [hos]; simp [Function.comp_def]⟩⟩

/-! ### Tags with holes -/

theorem tagEnd_startTag {cs left rest : List Char} {raws : List (List Char × List Char)} {name : String}
    {attrs : List (String × String)} {closed : Bool} :
    tagEnd cs raws left = .ok (.whole [.startTag name attrs closed] rest) ↔
      raws.mapM readAttr = .ok attrs ∧ String.ofList (Text.lowered (cs.takeWhile isTagNameChar)) = name ∧
        ((left = '>' :: rest ∧ closed = false) ∨ ∃ r, left = '/' :: r ∧ rest = r.drop 1 ∧ closed = true) := by
  have htag {b : Bool} {r : List Char} : ((raws.mapM readAttr).map fun as =>
      Construct.whole [.startTag (String.ofList (Text.lowered (cs.takeWhile isTagNameChar))) as b] r) =
        .ok (.whole [.startTag name attrs closed] rest) ↔
      raws.mapM readAttr = .ok attrs ∧ String.ofList (Text.lowered (cs.takeWhile isTagNameChar)) = name ∧
        r = rest ∧ b = closed := by
    cases raws.mapM readAttr with
    | error f => simp [Except.map]
    | ok as =>
      simp only [Except.map, Except.ok.injEq, Construct.whole.injEq, List.cons.injEq, Token.startTag.injEq]
      grind
  rcases left with _ | ⟨c, left⟩
  · simp [tagEnd]
  · by_cases hgt : c = '>'
    · subst hgt
      simp only [tagEnd, htag, List.cons.injEq]
      grind
    · by_cases hslash : c = '/'
      · subst hslash
        simp only [tagEnd, htag, List.cons.injEq]
        grind
      · rw [tagEnd_other hgt hslash]
        simp only [List.cons.injEq, hgt, hslash, false_and, false_or, exists_false, and_false, iff_false]
        split <;> simp

/-- A token in which the values of attributes may be holes. -/
inductive OpenToken (ι : Type) where
  | given (t : Token)
  | startTag (name : String) (attrs : List (String × (String ⊕ ι))) (closed : Bool)

/-- The token, with what is read in the holes. -/
def OpenToken.close (dec : ι → String) : OpenToken ι → Token
  | .given t => t
  | .startTag name attrs closed => .startTag name (attrs.map (closeAttr dec)) closed

/-- The holes in the attributes of a token. -/
def OpenToken.holes : OpenToken ι → List ι
  | .given _ => []
  | .startTag _ attrs _ => attrHoles attrs

/-- A tag ends outside of the holes, if all of them lie behind it. -/
theorem tagEnd_open {left : List Char} {closed : Bool}
    (hend : (writeAll f ps = '>' :: left ∧ closed = false) ∨
      ∃ r, writeAll f ps = '/' :: r ∧ left = r.drop 1 ∧ closed = true)
    (hplace : ∀ x ∈ values f ps, ∃ n, n :: '=' :: '"' :: (f x.1 ++ '"' :: x.2) <:+ left) :
    ∃ rest : List (Part ι), values f rest = values f ps ∧ left = writeAll f rest ∧
      ∀ g : ι → List Char, (writeAll g ps = '>' :: writeAll g rest ∧ closed = false) ∨
        ∃ r, writeAll g ps = '/' :: r ∧ writeAll g rest = r.drop 1 ∧ closed = true := by
  rcases hend with ⟨hend, rfl⟩ | ⟨r, hend, rfl, rfl⟩
  · rcases ps with _ | ⟨c | j, rest⟩
    · cases hend
    · obtain ⟨rfl, rfl⟩ := List.cons.inj hend
      exact ⟨rest, rfl, rfl, fun g => .inl ⟨rfl, rfl⟩⟩
    · rw [Part.writeAll_value] at hend
      exact absurd (List.cons.inj hend).1 (by decide)
  · rcases ps with _ | ⟨c | j, _ | ⟨d | k, rest⟩⟩
    · cases hend
    · obtain ⟨rfl, rfl⟩ := List.cons.inj hend
      exact ⟨[], rfl, rfl, fun g => .inr ⟨_, rfl, rfl, rfl⟩⟩
    · obtain ⟨rfl, rfl⟩ := List.cons.inj hend
      exact ⟨rest, rfl, rfl, fun g => .inr ⟨_, rfl, rfl, rfl⟩⟩
    · -- a hole right behind the slash would not lie behind the tag
      obtain rfl : writeAll f (.value k :: rest) = r := (List.cons.inj hend).2
      obtain ⟨n, hn⟩ := hplace (k, writeAll f rest) (List.mem_cons_self ..)
      have hlong := hn.length_le
      simp only [Part.writeAll_value, List.length_drop, List.length_cons] at hlong
      omega
    all_goals
      rw [Part.writeAll_value] at hend
      exact absurd (List.cons.inj hend).1 (by decide)

/-- **A start tag is read around the holes**, if the first of them is in it. -/
theorem startTag_open {p : List Char} {i : ι} {qs : List (Part ι)} (hps : ps = p.map .char ++ .value i :: qs)
    (hf : ∀ j ∈ holes ps, '"' ∉ f j ∧ '\'' ∈ f j) {name : String} {attrs : List (String × String)} {closed : Bool}
    {left : List Char} (whole : startTag (writeAll f ps) = .ok (.whole [.startTag name attrs closed] left))
    (first : AttrAt (f i) (writeAll f qs) (tagReady (writeAll f ps)) (tagGap (writeAll f ps)))
    (hplace : ∀ x ∈ values f ps, AttrAt (f x.1) x.2 (tagReady (writeAll f ps)) (tagGap (writeAll f ps)) ∨
      ∃ n, n :: '=' :: '"' :: (f x.1 ++ '"' :: x.2) <:+ left) :
    ∃ as rest, (∀ x ∈ values f rest, x ∈ values f ps) ∧ holes ps = attrHoles as ++ holes rest ∧
      left = writeAll f rest ∧ ∀ g dec, Fills g dec ps →
        startTag (writeAll g ps) = .ok (.whole [(OpenToken.startTag name as closed).close dec] (writeAll g rest)) := by
  have htext (g : ι → List Char) : writeAll g ps = p ++ '=' :: '"' :: (g i ++ '"' :: writeAll g qs) := by simp [hps]
  have hH : IsHole ('=' :: '"' :: (f i ++ '"' :: writeAll f qs)) := isHole_quoted (hf i (by simp [hps])).2 _
  obtain ⟨n, hn⟩ := first.place.1
  rw [htext] at hn
  obtain ⟨q, -, -, hR⟩ := tagGap_local hH hn.length_le
  -- what follows the name of the tag, as parts
  have hgap (g : ι → List Char) : tagGap (writeAll g ps) = writeAll g (q.map .char ++ .value i :: qs) ∧
      tagReady (writeAll g ps) = tagReady (writeAll f ps) ∧
      (writeAll g ps).takeWhile isTagNameChar = p.takeWhile isTagNameChar := by
    rw [htext, htext]
    obtain ⟨hg, hready, hname⟩ := hR ('=' :: '"' :: (g i ++ '"' :: writeAll g qs))
    exact ⟨by rw [hg]; simp, hready, hname⟩
  have hvalues : values f (q.map .char ++ .value i :: qs) = values f ps := by simp [hps]
  rw [startTag_eq] at whole
  have hleft := tagEnd_suffix whole
  obtain ⟨hread, hname, hend⟩ := tagEnd_startTag.1 whole
  rw [(hgap f).1] at hread hend hleft hplace
  obtain ⟨as, tagRest, hsub, hholes, htail, hopen⟩ :
      OpensAttrs f (tagReady (writeAll f ps)) (q.map .char ++ .value i :: qs) := by
    refine ReadsAttrs.opens (fun j hj => hf j (by simpa [hps] using hj)) ⟨⟨_, hread⟩, fun x hx => ?_⟩
    exact (hplace x (hvalues ▸ hx)).imp_right fun ⟨n, hn⟩ => ⟨n, hn.trans hleft⟩
  rw [htail] at hend
  have hbehind : ∀ x ∈ values f tagRest, ∃ n, n :: '=' :: '"' :: (f x.1 ++ '"' :: x.2) <:+ left := by
    intro x hx
    refine (hplace x (hvalues ▸ hsub x hx)).resolve_left fun hat => ?_
    have hlong := (Part.suffix_of_mem_values hx).length_le
    have hshort := hat.place.2
    rw [htail] at hshort
    simp only [List.length_cons, List.length_append] at hlong
    omega
  obtain ⟨rest, hrest, rfl, hends⟩ := tagEnd_open hend hbehind
  have hkept : holes ps = attrHoles as ++ holes rest := by
    rw [← Part.values_fst f rest, hrest, Part.values_fst, ← hholes]
    simp [hps]
  refine ⟨as, rest, fun x hx => ?_, hkept, rfl, fun g dec hg => ?_⟩
  · exact hvalues ▸ hsub x (hrest ▸ hx)
  · obtain ⟨raws, hraws, has⟩ := hopen g dec (hg.mono (f := f) (by simp [hps]))
    rw [startTag_eq, (hgap g).2.1, (hgap g).1, hraws]
    refine tagEnd_startTag.2 ⟨has, ?_, hends g⟩
    rw [(hgap g).2.2, ← (hgap f).2.2, hname]

/-! ### Passes with holes -/

theorem nextStep_startTag {c : Char} {cs left : List Char} {ts : List Token} (letter : Text.isAsciiLetter c = true)
    (whole : startTag (c :: cs) = .ok (.whole ts left)) :
    nextStep false none ('<' :: c :: cs) = .ok (.go ts (opensRaw ts) left) := by
  have hother {d : Char} (hd : Text.isAsciiLetter d = false) : c ≠ d := by
    rintro rfl
    rw [hd] at letter
    cases letter
  refine tagStep_go.2 (.inl ⟨?_, rfl⟩)
  rw [constructAt?_other cs (hother (by decide)) (hother (by decide)) (hother (by decide)), if_pos letter, whole]
  rfl

/-- The value is one of those that are read. -/
theorem AttrAt.mem {ready : Bool} {cs : List Char} (h : AttrAt v rest ready cs) :
    ∃ name, (name, v) ∈ (attrsOf ready cs).1 := by
  induction h with
  | @here ready name h =>
    rw [attrsOf_some h]
    exact ⟨name, List.mem_cons_self ..⟩
  | next h there ih =>
    rw [attrsOf_some h]
    exact ih.imp fun name hn => List.mem_cons_of_mem _ hn

/-- The value can be read. -/
theorem ValueAt.decodes {raw : Option String} {cs : List Char} (h : ValueAt v rest raw cs) :
    ∃ w, decodeValue v = .ok w := by
  have hall {as : List (List Char × List Char)} {bs : List (String × String)} (hm : as.mapM readAttr = .ok bs) :
      ∀ a ∈ as, ∃ b, readAttr a = .ok b := by
    induction as generalizing bs with
    | nil => simp
    | cons a as ih =>
      rw [List.mapM_cons] at hm
      cases ha : readAttr a with
      | error e =>
        rw [ha] at hm
        cases hm
      | ok b =>
        cases has : as.mapM readAttr with
        | error e =>
          rw [ha, has] at hm
          cases hm
        | ok bs => exact List.forall_mem_cons.2 ⟨⟨b, ha⟩, ih has⟩
  induction h with
  | tag letter whole there =>
    rw [startTag_eq] at whole
    obtain ⟨name, hmem⟩ := there.mem
    obtain ⟨b, hb⟩ := hall (tagEnd_startTag.1 whole).1 _ hmem
    unfold readAttr at hb
    split at hb
    · rename_i w hw
      exact ⟨w, hw⟩
    · cases hb
  | next h there ih => exact ih

theorem ValueAt.of_next {raw raw' : Option String} {cs next : List Char} {ts : List Token} (h : ValueAt v rest raw cs)
    (hn : nextStep false raw cs = .ok (.go ts raw' next)) (hlong : rest.length < next.length) :
    ValueAt v rest raw' next := by
  cases h with
  | tag letter whole there =>
    rw [nextStep_startTag letter whole] at hn
    obtain ⟨-, -, rfl⟩ := Step.go.inj (Except.ok.inj hn)
    rw [startTag_eq] at whole
    have hleft := (tagEnd_suffix whole).length_le
    have hin := there.place.2
    omega
  | next h there =>
    rw [h] at hn
    obtain ⟨-, rfl, rfl⟩ := Step.go.inj (Except.ok.inj hn)
    exact there

/-- Every hole of a text is the value of an attribute of a start tag to which the first pass comes. -/
def ReadsValues (f : ι → List Char) (raw : Option String) (ps : List (Part ι)) : Prop :=
  ∀ x ∈ values f ps, ValueAt (f x.1) x.2 raw (writeAll f ps)

theorem ReadsValues.next {raw raw' : Option String} {qs : List (Part ι)} {ts : List Token} (h : ReadsValues f raw ps)
    (hn : nextStep false raw (writeAll f ps) = .ok (.go ts raw' (writeAll f qs)))
    (hsub : ∀ x ∈ values f qs, x ∈ values f ps) : ReadsValues f raw' qs := by
  intro x hx
  have hlong := (Part.suffix_of_mem_values hx).length_le
  simp only [List.length_cons, List.length_append] at hlong
  exact (h x (hsub x hx)).of_next hn (by omega)

/-- What a pass gives with holes, and with what is read in them. -/
def closeResult (dec : ι → String) (r : List (OpenToken ι) × Option String × List Char) :
    List Token × Option String × List Char :=
  (r.1.map (OpenToken.close dec), r.2)

/-- One step more. -/
theorem prepend_closeResult (ts : List (OpenToken ι)) (r : Except Fault (List (OpenToken ι) × Option String × List Char))
    (dec : ι → String) :
    prepend (ts.map (OpenToken.close dec)) (r.map (closeResult dec)) =
      (r.map fun x => (ts ++ x.1, x.2)).map (closeResult dec) := by
  cases r with
  | error f => rfl
  | ok r => simp [prepend, Except.map, closeResult]

/-- The first step of a text with a hole, as parts: what it takes is the same up to the holes. -/
theorem ReadsValues.step {raw : Option String} {p : List Char} {i : ι} {qs : List (Part ι)}
    (hps : ps = p.map .char ++ .value i :: qs) (hf : ∀ j ∈ holes ps, '"' ∉ f j ∧ '\'' ∈ f j) (hraw : RawMode raw)
    (h : ReadsValues f raw ps) :
    ∃ (ts : List (OpenToken ι)) (raw' : Option String) (rest : List (Part ι)),
      (∀ x ∈ values f rest, x ∈ values f ps) ∧ holes ps = ts.flatMap OpenToken.holes ++ holes rest ∧
        (∃ us, nextStep false raw (writeAll f ps) = .ok (.go us raw' (writeAll f rest))) ∧
        ∀ g dec, Fills g dec ps →
          nextStep false raw (writeAll g ps) = .ok (.go (ts.map (OpenToken.close dec)) raw' (writeAll g rest)) := by
  have htext (g : ι → List Char) : writeAll g ps = p ++ '=' :: '"' :: (g i ++ '"' :: writeAll g qs) := by simp [hps]
  have hH : IsHole ('=' :: '"' :: (f i ++ '"' :: writeAll f qs)) := isHole_quoted (hf i (by simp [hps])).2 _
  have hat := h (i, writeAll f qs) (by simp [hps, values])
  generalize hcs : writeAll f ps = cs at hat
  cases hat with
  | @next _ raw' _ next ts hn there =>
    subst hcs
    obtain ⟨n, hlong⟩ := there.place
    rw [htext] at hn
    obtain ⟨q, -, hR⟩ := nextStep_local hH hraw hn hlong.length_le
    have hopen (g : ι → List Char) : nextStep false raw (writeAll g ps) =
        .ok (.go ts raw' (writeAll g (q.map .char ++ .value i :: qs))) := by
      rw [htext, hR]
      simp
    have hholes : holes ps = (ts.map OpenToken.given).flatMap OpenToken.holes ++ holes (q.map .char ++ .value i :: qs) := by
      simp [hps, List.flatMap_map, OpenToken.holes]
    refine ⟨ts.map .given, raw', q.map .char ++ .value i :: qs, by simp [hps], hholes, ⟨ts, hopen f⟩, fun g dec _ => ?_⟩
    rw [hopen, List.map_map]
    simp [Function.comp_def, OpenToken.close]
  | @tag c cs left name attrs closed letter whole there =>
    rw [htext] at hcs
    obtain ⟨p, rfl⟩ : ∃ X, p = '<' :: c :: X := by
      rcases p with _ | ⟨d, _ | ⟨e, p⟩⟩
      · exact absurd (List.cons.inj hcs).1 (by decide)
      · obtain ⟨-, hcs⟩ := List.cons.inj hcs
        obtain ⟨rfl, -⟩ := List.cons.inj hcs
        exact absurd letter (by decide)
      · simp only [List.cons_append, List.cons.injEq] at hcs
        exact ⟨p, by rw [hcs.1, hcs.2.1]⟩
    -- what follows `<`, as parts
    obtain ⟨qs', hqs'⟩ : ∃ qs', qs' = (c :: p).map .char ++ Part.value i :: qs := ⟨_, rfl⟩
    have hin (g : ι → List Char) : ∃ X, writeAll g qs' = c :: X ∧ writeAll g ps = '<' :: c :: X := by
      rw [htext, hqs']
      exact ⟨p ++ '=' :: '"' :: (g i ++ '"' :: writeAll g qs), by simp, rfl⟩
    have hfs : writeAll f qs' = c :: cs := by
      obtain ⟨X, hX, hX'⟩ := hin f
      rw [hX, ← (List.cons.inj (hX'.symm.trans ((htext f).trans hcs))).2]
    have hvalues : values f qs' = values f ps := by simp [hqs', hps]
    have hstep := nextStep_startTag letter whole
    rw [← hfs] at whole there
    obtain ⟨as, rest, hsub, hholes, rfl, hopen⟩ := startTag_open hqs' (fun j hj => hf j (by simpa [hqs', hps] using hj)) whole
      there (fun x hx => by
        have hx' := h x (hvalues ▸ hx)
        rw [htext, hcs] at hx'
        cases hx' with
        | tag _ _ there' => exact .inl (hfs ▸ there')
        | next hn there' =>
          rw [hstep] at hn
          obtain ⟨-, -, rfl⟩ := Step.go.inj (Except.ok.inj hn)
          exact .inr there'.place)
    have hkept : holes ps = [OpenToken.startTag name as closed].flatMap OpenToken.holes ++ holes rest := by
      rw [List.flatMap_singleton, OpenToken.holes, ← hholes, ← Part.values_fst f ps, ← hvalues, Part.values_fst]
    refine ⟨[.startTag name as closed], opensRaw [.startTag name attrs closed], rest, fun x hx => hvalues ▸ hsub x hx,
      hkept, ⟨_, hstep⟩, fun g dec hg => ?_⟩
    obtain ⟨X, hX, hX'⟩ := hin g
    have hwhole := hopen g dec (hg.mono (f := f) (by simp [hvalues]))
    rw [hX] at hwhole
    rw [hX', nextStep_startTag letter hwhole]
    -- what a tag opens is told by its name
    cases closed <;> rfl

theorem map_eq_ok_iff {ε α β : Type} {r : Except ε α} {k : α → β} {b : β} :
    r.map k = .ok b ↔ ∃ a, r = .ok a ∧ k a = b := by
  cases r <;> simp [Except.map]

/-- **A pass reads around the holes.**  What it gives is the same up to what is read in them, whatever stands there,
and each of them is a value in it. -/
theorem wholePass_open {raw : Option String} (hf : ∀ i ∈ holes ps, '"' ∉ f i ∧ '\'' ∈ f i) (hraw : RawMode raw)
    (h : ReadsValues f raw ps) :
    ∃ r : Except Fault (List (OpenToken ι) × Option String × List Char),
      (∀ g dec, Fills g dec ps → wholePass false raw (writeAll g ps) = r.map (closeResult dec)) ∧
        ∀ x, r = .ok x → holes ps = x.1.flatMap OpenToken.holes := by
  induction hn : (writeAll f ps).length using Nat.strongRecOn generalizing ps raw with
  | _ n ih =>
    subst hn
    obtain ⟨p, rfl | ⟨i, qs, hps⟩⟩ := Part.split_first ps
    · -- there is no hole
      refine ⟨(wholePass false raw p).map fun x => (x.1.map .given, x.2), fun g dec _ => ?_, fun x hx => ?_⟩
      · rw [Part.writeAll_chars]
        cases wholePass false raw p with
        | error f => rfl
        | ok r => simp [Except.map, closeResult, Function.comp_def, OpenToken.close]
      · obtain ⟨y, -, rfl⟩ := map_eq_ok_iff.1 hx
        simp [List.flatMap_map, OpenToken.holes]
    · obtain ⟨ts, raw', rest, hsub, hholes, ⟨us, hstep⟩, hopen⟩ := h.step hps hf hraw
      have hne (g : ι → List Char) : writeAll g ps ≠ [] := by simp [hps]
      have hf' : ∀ j ∈ holes rest, '"' ∉ f j ∧ '\'' ∈ f j := by
        intro j hj
        obtain ⟨more, hx⟩ := (mem_holes (f := f)).1 hj
        exact hf j ((mem_holes (f := f)).2 ⟨more, hsub _ hx⟩)
      obtain ⟨r, hr, hmore⟩ := ih _ (length_lt_of_nextStep (hne f) hstep) hf' (rawMode_of_nextStep hraw hstep)
        (h.next hstep hsub) rfl
      refine ⟨r.map fun x => (ts ++ x.1, x.2), fun g dec hg => ?_, fun x hx => ?_⟩
      · rw [wholePass_go (hne g) (hopen g dec hg), hr g dec (hg.mono hsub), prepend_closeResult]
      · obtain ⟨y, hy, rfl⟩ := map_eq_ok_iff.1 hx
        rw [hholes, hmore y hy, List.flatMap_append]

end Markup
end PageComposer
