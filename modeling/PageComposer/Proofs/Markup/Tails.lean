/-
# What a reader leaves

A reader of markup takes a piece from the front of a text and leaves an end of it: behind a gap, an
attribute, a tag or a literal construct stands what stood there in the text (`Construct.Within`). One
reader puts a blank of its own before what it leaves, which the gap behind it drops again
(`takeValue?_pieces`).
-/

import PageComposer.Markup.Tree

namespace PageComposer
namespace Markup

/-! ### Attributes -/

theorem drop_length_takeWhile (f : Char → Bool) (cs : List Char) :
    cs.drop (cs.takeWhile f).length = cs.dropWhile f := by
  induction cs with
  | nil => rfl
  | cons c cs ih =>
    rw [List.takeWhile_cons, List.dropWhile_cons]
    split
    · exact ih
    · rfl

/-- The last of a run of one character stands right before what follows the run. -/
theorem cons_drop_run_suffix {c : Char} {cs : List Char} (hrun : cs.takeWhile (· == c) ≠ []) :
    c :: cs.drop (cs.takeWhile (· == c)).length <:+ cs := by
  induction cs with
  | nil => exact absurd rfl hrun
  | cons x rest ih =>
    rw [List.takeWhile_cons] at hrun ⊢
    split at hrun
    · rename_i hx
      rw [if_pos hx, List.length_cons, List.drop_succ_cons]
      by_cases hmore : rest.takeWhile (· == c) = []
      · rw [hmore, beq_iff_eq.1 hx]
        exact List.suffix_rfl
      · exact (ih hmore).trans (List.suffix_cons ..)
    · exact absurd rfl hrun

theorem skipGap_suffix (cs : List Char) : skipGap cs <:+ cs := by
  fun_induction skipGap cs with
  | case1 => exact List.suffix_rfl
  | case2 => exact List.suffix_rfl
  | case3 _ _ ih => exact ih.trans (List.suffix_cons ..)
  | case4 _ _ _ _ ih => exact ih.trans (List.suffix_cons ..)
  | case5 => exact List.suffix_rfl

theorem takeBare_pieces (cs : List Char) : (takeBare cs).1 <:+: cs ∧ (takeBare cs).2 <:+ cs :=
  ⟨(List.takeWhile_prefix _).isInfix, List.drop_suffix _ _⟩

theorem takeQuoted?_pieces {q : Char} {cs v rest : List Char} (h : takeQuoted? q cs = some (v, rest)) :
    v <:+: cs ∧ rest <:+ cs := by
  unfold takeQuoted? at h
  dsimp only at h
  split at h
  · rename_i c rest' hd
    simp only [Option.some.injEq, Prod.mk.injEq] at h
    obtain ⟨rfl, rfl⟩ := h
    refine ⟨(List.takeWhile_prefix _).isInfix, ?_⟩
    have hdrop := List.drop_suffix (cs.takeWhile (· != q)).length cs
    rw [hd] at hdrop
    exact (List.suffix_cons ..).trans hdrop
  · cases h

/-- A value, and what stands behind it but for a gap. -/
theorem takeValue?_pieces {cs v rest : List Char} {quoted : Bool}
    (h : takeValue? cs = some (v, quoted, rest)) : v <:+: cs ∧ skipGap rest <:+ cs := by
  unfold takeValue? at h
  extract_lets afterBlanks signs afterSigns blanks body bare at h
  have hb : afterBlanks <:+ cs := List.dropWhile_suffix _
  have ha : afterSigns <:+ cs := (List.drop_suffix _ _).trans hb
  have hbody : body <:+ cs := (List.drop_suffix _ _).trans ha
  -- without blanks, a sign stands right before the body
  have hsign : ¬signs.isEmpty = true → ¬(!blanks.isEmpty) = true → '=' :: body <:+ cs := by
    intro hs hblank
    have hbl : body = afterSigns := by
      have : blanks = [] := by simpa using hblank
      simp [body, this]
    rw [hbl]
    exact (cons_drop_run_suffix (mt List.isEmpty_iff.2 hs)).trans hb
  have unquoted : ∀ {from_ : List Char}, from_ <:+ cs → bare from_ = some (v, quoted, rest) →
      v <:+: cs ∧ skipGap rest <:+ cs := by
    intro from_ hf he
    simp only [bare, Option.some.injEq, Prod.mk.injEq] at he
    obtain ⟨rfl, rfl, rfl⟩ := he
    exact ⟨(takeBare_pieces from_).1.trans hf.isInfix,
      (skipGap_suffix _).trans ((takeBare_pieces from_).2.trans hf)⟩
  generalize body = body' at h hbody hsign
  split at h
  · cases h
  · rename_i hne
    split at h
    · exact unquoted hbody h
    · rename_i c rest'
      split at h
      · have hr : rest' <:+ cs := (List.suffix_cons c rest').trans hbody
        split at h
        · rename_i v' rest'' hq
          simp only [Option.some.injEq, Prod.mk.injEq] at h
          obtain ⟨rfl, rfl, rfl⟩ := h
          obtain ⟨hv, hrest⟩ := takeQuoted?_pieces hq
          exact ⟨hv.trans hr.isInfix, (skipGap_suffix _).trans (hrest.trans hr)⟩
        · split at h
          · simp only [Option.some.injEq, Prod.mk.injEq] at h
            obtain ⟨rfl, rfl, rfl⟩ := h
            exact ⟨List.nil_suffix.isInfix, (skipGap_suffix (c :: rest')).trans hbody⟩
          · rename_i hblank
            split at h
            · exact unquoted (hsign hne hblank) h
            · cases h
      · exact unquoted hbody h

/-- Attribute values are pieces of the text, and what is left is its end. -/
theorem takeAttrs_pieces (fuel : Nat) (ready : Bool) (cs : List Char) :
    (takeAttrs fuel ready cs).2 <:+ cs ∧ ∀ a ∈ (takeAttrs fuel ready cs).1, a.2 <:+: cs := by
  induction fuel generalizing ready cs with
  | zero => exact ⟨List.suffix_rfl, by simp [takeAttrs]⟩
  | succ fuel ih =>
    cases cs with
    | nil => exact ⟨List.suffix_rfl, by simp [takeAttrs]⟩
    | cons c rest =>
      rw [takeAttrs]
      split
      · exact ⟨List.suffix_rfl, by simp⟩
      · extract_lets more name afterName
        have hafter : afterName <:+ c :: rest := (List.drop_suffix _ _).trans (List.suffix_cons ..)
        split
        rename_i v q afterValue hv
        have hvalue : v <:+: c :: rest ∧ skipGap afterValue <:+ c :: rest := by
          split at hv
          · rename_i v' q' r' hs
            obtain ⟨rfl, rfl, rfl⟩ : v' = v ∧ q' = q ∧ r' = afterValue := by simpa using hv
            obtain ⟨hv, hr⟩ := takeValue?_pieces hs
            exact ⟨hv.trans hafter.isInfix, hr.trans hafter⟩
          · obtain ⟨rfl, _, rfl⟩ : [] = v ∧ _ = q ∧ afterName = afterValue := by simpa using hv
            exact ⟨List.nil_suffix.isInfix, (skipGap_suffix _).trans hafter⟩
        obtain ⟨hleft, hattrs⟩ := ih (decide ((skipGap afterValue).length < afterValue.length) || q)
          (skipGap afterValue)
        exact ⟨hleft.trans hvalue.2, List.forall_mem_cons.2
          ⟨hvalue.1, fun a ha => (hattrs a ha).trans hvalue.2.isInfix⟩⟩

/-! ### Literal constructs -/

theorem splitAt?_suffix {c : Char} {cs s rest : List Char} (h : splitAt? c cs = some (s, rest)) :
    rest <:+ cs := by
  unfold splitAt? at h
  dsimp only at h
  split at h
  · rename_i x rest' hd
    obtain ⟨_, rfl⟩ : _ = s ∧ rest' = rest := by simpa using h
    have hdrop := List.drop_suffix (cs.takeWhile (· != c)).length cs
    rw [hd] at hdrop
    exact (List.suffix_cons ..).trans hdrop
  · cases h

theorem afterAngle?_suffix {cs rest : List Char} (h : afterAngle? cs = some rest) : rest <:+ cs := by
  unfold afterAngle? at h
  split at h
  · obtain rfl := Option.some.inj h
    exact List.suffix_cons ..
  · cases h

theorem afterDashes?_suffix {cs rest : List Char} (h : afterDashes? cs = some rest) : rest <:+ cs := by
  unfold afterDashes? at h
  split at h
  · rename_i rest'
    split at h
    · rename_i rest'' hd
      obtain rfl := Option.some.inj h
      have hblank : '>' :: rest'' <:+ rest' := hd ▸ List.dropWhile_suffix _
      exact (List.suffix_cons ..).trans (hblank.trans
        ((List.suffix_cons ..).trans (List.suffix_cons ..)))
    · cases h
  · cases h

theorem afterBrackets?_suffix {double : Bool} {cs rest : List Char}
    (h : afterBrackets? double cs = some rest) : rest <:+ cs := by
  unfold afterBrackets? at h
  split at h
  · rename_i rest'
    have hblank : rest'.dropWhile Text.isBlank <:+ rest' := List.dropWhile_suffix _
    dsimp only at h
    split at h
    · rename_i r hr
      obtain rfl := Option.some.inj h
      have hbracket : '>' :: r <:+ rest' := by
        split at hr
        · split at hr
          · rename_i rest'' hd
            obtain heq := Option.some.inj hr
            rw [hd] at hblank
            exact heq ▸ (List.dropWhile_suffix _).trans ((List.suffix_cons ..).trans hblank)
          · cases hr
        · exact Option.some.inj hr ▸ hblank
      exact (List.suffix_cons ..).trans (hbracket.trans (List.suffix_cons ..))
    · cases h
  · cases h

theorem splitBefore?_suffix {close : List Char → Option (List Char)}
    (hclose : ∀ {cs rest}, close cs = some rest → rest <:+ cs) {cs s rest : List Char}
    (h : splitBefore? close cs = some (s, rest)) : rest <:+ cs := by
  induction cs generalizing s with
  | nil =>
    obtain ⟨r, hr, he⟩ := Option.map_eq_some_iff.1 h
    obtain ⟨_, rfl⟩ := Prod.mk.inj he
    exact hclose hr
  | cons c cs ih =>
    unfold splitBefore? at h
    split at h
    · rename_i r hr
      obtain ⟨_, rfl⟩ : s = [] ∧ r = rest := by simpa using h
      exact hclose hr
    · obtain ⟨⟨s', r⟩, hs, he⟩ := Option.map_eq_some_iff.1 h
      obtain ⟨_, rfl⟩ := Prod.mk.inj he
      exact (ih hs).trans (List.suffix_cons ..)

/-- What is left is less where `close` takes a character at least. -/
theorem splitBefore?_tail {close : List Char → Option (List Char)}
    (hclose : ∀ {cs rest}, close cs = some rest → rest <:+ cs.tail) {cs s rest : List Char}
    (h : splitBefore? close cs = some (s, rest)) : rest <:+ cs.tail := by
  cases cs with
  | nil =>
    obtain ⟨r, hr, he⟩ := Option.map_eq_some_iff.1 h
    obtain ⟨_, rfl⟩ := Prod.mk.inj he
    exact hclose hr
  | cons c cs =>
    unfold splitBefore? at h
    split at h
    · rename_i r hr
      obtain ⟨_, rfl⟩ : s = [] ∧ r = rest := by simpa using h
      exact hclose hr
    · obtain ⟨⟨s', r⟩, hs, he⟩ := Option.map_eq_some_iff.1 h
      obtain ⟨_, rfl⟩ := Prod.mk.inj he
      exact splitBefore?_suffix (fun hr => (hclose hr).trans (List.tail_suffix _)) hs

/-- A construct at the beginning of a text leaves an end of it. -/
def Construct.Within (cs : List Char) (c : Construct) : Prop :=
  ∀ ts rest, c = .whole ts rest → rest <:+ cs

theorem Construct.Within.mono {cs cs' : List Char} {c : Construct} (hc : c.Within cs)
    (hs : cs <:+ cs') : c.Within cs' := fun ts rest he => (hc ts rest he).trans hs

theorem within_upTo {close : List Char → Option (List Char)}
    (hclose : ∀ {cs rest}, close cs = some rest → rest <:+ cs) (token : List Char → Token)
    (cs : List Char) : (upTo close token cs).Within cs := by
  intro ts rest h
  unfold upTo at h
  split at h
  · rename_i s r hs
    obtain ⟨_, rfl⟩ := Construct.whole.inj h
    exact splitBefore?_suffix hclose hs
  · cases h

theorem within_endTag (cs : List Char) : (endTag cs).Within cs := by
  intro ts rest h
  unfold endTag at h
  split at h
  · cases h
  · rename_i inner r hs
    have hr : r = rest := by
      split at h
      · exact (Construct.whole.inj h).2
      · split at h
        · exact (Construct.whole.inj h).2
        · split at h <;> exact (Construct.whole.inj h).2
    exact hr ▸ splitAt?_suffix hs

theorem within_markedSection {cs : List Char} {c : Construct} (h : markedSection cs = .ok c) :
    c.Within cs := by
  have incomplete : Construct.Within cs .incomplete := by
    intro ts rest he
    cases he
  unfold markedSection at h
  split at h
  · obtain rfl := Except.ok.inj h
    exact incomplete
  · split at h
    · dsimp only at h
      split at h
      · obtain rfl := Except.ok.inj h
        exact incomplete
      · split at h
        · obtain rfl := Except.ok.inj h
          exact within_upTo afterBrackets?_suffix _ _
        · split at h
          · obtain rfl := Except.ok.inj h
            exact within_upTo afterBrackets?_suffix _ _
          · cases h
    · cases h

theorem within_declaration {cs : List Char} {c : Construct} (h : declaration cs = .ok c) :
    c.Within cs := by
  unfold declaration at h
  split at h
  · obtain rfl := Except.ok.inj h
    exact (within_upTo afterDashes?_suffix _ _).mono
      ((List.suffix_cons ..).trans (List.suffix_cons ..))
  · exact (within_markedSection h).mono (List.suffix_cons ..)
  · split at h
    · obtain rfl := Except.ok.inj h
      exact (within_upTo afterAngle?_suffix _ _).mono (List.drop_suffix _ _)
    · obtain rfl := Except.ok.inj h
      exact within_upTo afterAngle?_suffix _ _

end Markup
end PageComposer
