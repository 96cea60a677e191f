/-
# Which numerals are refused

A character reference by number is refused if it has more than 4300 digits. There is no other way for a
number to be refused: where reading a text ends with a fault about a numeral, as many digits stand in that
text one after the other (`longNumeral_of_parse`). Each reader is refused only for what stands in the text
that it begins with, and the next one begins with an end of it, so what they give is followed along the
binds (`Gives.bind`).
-/

import PageComposer.Proofs.Markup.Tails

namespace PageComposer
namespace Markup

/-! ### Results and faults -/

/-- A result is such that `P`, a fault such that `Q`. -/
def Gives {ε α : Type} (Q : ε → Prop) (P : α → Prop) : Except ε α → Prop
  | .ok a => P a
  | .error e => Q e

namespace Gives

variable {ε α β : Type} {Q Q' : ε → Prop} {P : α → Prop} {P' : β → Prop}

theorem bind {r : Except ε α} {next : α → Except ε β} (h : Gives Q P r)
    (hnext : ∀ a, P a → Gives Q P' (next a)) : Gives Q P' (r >>= next) := by
  cases r with
  | error e => exact h
  | ok a => exact hnext a h

theorem mono {P' : α → Prop} {r : Except ε α} (h : Gives Q P r) (hQ : ∀ e, Q e → Q' e)
    (hP : ∀ a, P a → P' a) : Gives Q' P' r := by
  cases r with
  | error e => exact hQ e h
  | ok a => exact hP a h

theorem map {r : Except ε α} {g : α → β} (h : Gives Q P r) (hg : ∀ a, P a → P' (g a)) :
    Gives Q P' (g <$> r) := by
  cases r with
  | error e => exact h
  | ok a => exact hg a h

theorem mapM {read : α → Except ε β} {as : List α} (h : ∀ a ∈ as, Gives Q (fun _ => True) (read a)) :
    Gives Q (fun _ => True) (as.mapM read) := by
  induction as with
  | nil => trivial
  | cons a as ih =>
    rw [List.forall_mem_cons] at h
    rw [List.mapM_cons]
    exact h.1.bind fun _ _ => (ih h.2).bind fun _ _ => trivial

end Gives

/-- `f` is about a numeral in `cs` with more digits than are read. -/
def LongNumeral (cs : List Char) (f : Decimal.NumeralFault) : Prop :=
  ∃ ds, ds <:+: cs ∧ (∀ d ∈ ds, Text.isAsciiDigit d = true) ∧ Decimal.maxDigits < ds.length ∧
    f = .tooLong ds.length

theorem LongNumeral.mono {cs cs' : List Char} {f : Decimal.NumeralFault} (h : LongNumeral cs f)
    (hs : cs <:+: cs') : LongNumeral cs' f := by
  obtain ⟨ds, hds, hlong⟩ := h
  exact ⟨ds, hds.trans hs, hlong⟩

/-- A fault, if it is about a numeral, is about one in `cs` with more digits than are read. -/
def Blames (cs : List Char) (e : Fault) : Prop := ∀ f, e = .numeral f → LongNumeral cs f

theorem Blames.mono {cs cs' : List Char} {e : Fault} (h : Blames cs e) (hs : cs <:+: cs') : Blames cs' e :=
  fun f hf => (h f hf).mono hs

theorem LongNumeral.blames {cs : List Char} {f : Decimal.NumeralFault} (h : LongNumeral cs f) :
    Blames cs (.numeral f) := by
  intro g hg
  obtain rfl := Fault.numeral.inj hg
  exact h

theorem digitValue?_isSome {c : Char} (h : Text.isAsciiDigit c = true) :
    (Text.digitValue? c).isSome = true := by
  have hc := h
  simp only [Text.isAsciiDigit, Bool.and_eq_true, decide_eq_true_eq] at hc
  have h9 : c.toNat ≤ 57 := hc.2
  rw [Text.digitValue?, if_pos (by omega), if_pos h]
  rfl

/-- Digits are refused as a number only where there are too many. -/
theorem gives_bounded (cs : List Char) :
    Gives (LongNumeral cs) (fun _ => True)
      (Decimal.boundedOfDigits ((cs.takeWhile Text.isAsciiDigit).filterMap Text.digitValue?)) := by
  have hall : ∀ d ∈ cs.takeWhile Text.isAsciiDigit, Text.isAsciiDigit d = true :=
    List.all_eq_true.1 List.all_takeWhile
  have hlen : ((cs.takeWhile Text.isAsciiDigit).filterMap Text.digitValue?).length =
      (cs.takeWhile Text.isAsciiDigit).length :=
    List.filterMap_length_eq_length.2 fun d hd => digitValue?_isSome (hall d hd)
  unfold Decimal.boundedOfDigits
  rw [hlen]
  split
  · rename_i hlong
    exact ⟨_, (List.takeWhile_prefix _).isInfix, hall, hlong, rfl⟩
  · trivial

/-! ### References -/

theorem takeSemicolon_suffix (cs : List Char) : (takeSemicolon cs).2 <:+ cs := by
  unfold takeSemicolon
  split
  · exact List.suffix_cons ..
  · exact List.suffix_rfl

/-- A reference, if one is read, leaves an end of the text. -/
def TakenFrom (cs : List Char) (r : Option (List Char × List Char)) : Prop := ∀ s ∈ r, s.2 <:+ cs

theorem takenFrom_none (cs : List Char) : TakenFrom cs none := nofun

theorem takenFrom_some {cs rest : List Char} (text : List Char) (h : rest <:+ cs) :
    TakenFrom cs (some (text, rest)) := fun _ hs => Option.some.inj hs ▸ h

/-- A reference in a value leaves an end of the value, and is refused only for a numeral in it. -/
theorem gives_valueReference? (cs : List Char) :
    Gives (LongNumeral cs) (TakenFrom cs) (valueReference? cs) := by
  unfold valueReference?
  split
  · rename_i rest
    have hrest : rest <:+ '#' :: rest := List.suffix_cons ..
    dsimp only
    split
    · refine Gives.bind ((gives_bounded rest).mono (fun f hf => hf.mono hrest.isInfix) fun _ h => h) ?_
      exact fun n _ => takenFrom_some _ ((takeSemicolon_suffix _).trans ((List.drop_suffix _ _).trans hrest))
    · split
      · split
        · exact takenFrom_some _ ((takeSemicolon_suffix _).trans
            ((List.drop_suffix _ _).trans ((List.suffix_cons ..).trans hrest)))
        · exact takenFrom_none _
      · exact takenFrom_none _
  · dsimp only
    split
    · exact takenFrom_none _
    · exact takenFrom_some _ ((takeSemicolon_suffix _).trans (List.drop_suffix _ _))

/-- A value is refused only for a numeral in it. -/
theorem gives_decodeValueFrom (fuel : Nat) (cs : List Char) :
    Gives (LongNumeral cs) (fun _ => True) (decodeValueFrom fuel cs) := by
  induction fuel generalizing cs with
  | zero => trivial
  | succ fuel ih =>
    -- what follows is read from an end of the value
    have hmore : ∀ {rest : List Char} {g : List Char → List Char}, rest <:+ cs →
        Gives (LongNumeral cs) (fun _ => True)
          (do pure (g (← decodeValueFrom fuel rest)) : Except Decimal.NumeralFault _) := fun hr =>
      ((ih _).mono (fun _ h => h.mono hr.isInfix) fun _ h => h).bind fun _ _ => trivial
    cases cs with
    | nil => trivial
    | cons c rest =>
      have hrest : rest <:+ c :: rest := List.suffix_cons ..
      by_cases hc : c = '&'
      · subst hc
        rw [decodeValueFrom]
        refine Gives.bind ((gives_valueReference? rest).mono (fun _ h => h.mono hrest.isInfix) fun _ h => h)
          fun r hr => ?_
        cases r with
        | none => exact hmore (g := ('&' :: ·)) hrest
        | some s => exact hmore (g := (s.1 ++ ·)) ((hr s rfl).trans hrest)
      · rw [decodeValueFrom]
        · exact hmore (g := (c :: ·)) hrest
        · exact hc

/-- A reference in text leaves an end of the text, and is refused only for a numeral in it. -/
theorem gives_textReference? (cs : List Char) : Gives (Blames cs) (TakenFrom cs) (textReference? cs) := by
  have tail : ∀ {rest cs' : List Char} {c : Char} {n : Nat}, cs'.drop n = c :: rest → cs' <:+ cs →
      (takeSemicolon (c :: rest)).2 <:+ cs := by
    intro rest cs' c n hd hs
    exact (takeSemicolon_suffix _).trans ((hd ▸ List.drop_suffix n cs').trans hs)
  unfold textReference?
  split
  · rename_i rest
    have hrest : rest <:+ '#' :: rest := List.suffix_cons ..
    dsimp only
    split
    · split
      · exact takenFrom_none _
      · rename_i c more hd
        split
        · exact takenFrom_none _
        · have hn := gives_bounded rest
          split
          · exact takenFrom_some _ (tail hd hrest)
          · rename_i f hf
            rw [hf] at hn
            exact (LongNumeral.mono hn hrest.isInfix).blames
    · split
      · rename_i x rest'
        split
        · exact takenFrom_none _
        · rename_i c more hd
          split
          · exact takenFrom_some _ (tail hd ((List.suffix_cons ..).trans hrest))
          · exact takenFrom_none _
      · exact takenFrom_none _
  · split
    · dsimp only
      split
      · rename_i next more hd
        exact takenFrom_some _ (tail hd List.suffix_rfl)
      · split
        · exact takenFrom_none _
        · exact takenFrom_some _ (List.drop_suffix _ _)
    · exact takenFrom_none _
  · exact takenFrom_none _

/-! ### Tags -/

/-- Nothing in a declaration is read as a number. -/
theorem declaration_ne_numeral (cs : List Char) (f : Decimal.NumeralFault) :
    declaration cs ≠ .error (.numeral f) := by
  unfold declaration
  split
  · rintro ⟨⟩
  · unfold markedSection
    split
    · rintro ⟨⟩
    · split
      · dsimp only
        split
        · rintro ⟨⟩
        · split
          · rintro ⟨⟩
          · split <;> rintro ⟨⟩
      · rintro ⟨⟩
  · split <;> rintro ⟨⟩

theorem gives_declaration (cs : List Char) :
    Gives (Blames cs) (Construct.Within cs) (declaration cs) := by
  cases hd : declaration cs with
  | error e =>
    rintro f rfl
    exact absurd hd (declaration_ne_numeral cs f)
  | ok c => exact within_declaration hd

/-- A start tag leaves an end of the text, and is refused only for a numeral in it. -/
theorem gives_startTag (cs : List Char) : Gives (Blames cs) (Construct.Within cs) (startTag cs) := by
  unfold startTag
  extract_lets name afterName gap ready
  have hgap : gap <:+ cs := (skipGap_suffix _).trans (List.drop_suffix _ _)
  obtain ⟨hleft, hattrs⟩ := takeAttrs_pieces (gap.length + 1) ready gap
  split
  rename_i attrs rest hta
  rw [hta] at hleft hattrs
  extract_lets tag
  have hrest : rest <:+ cs := hleft.trans hgap
  have whole : ∀ {rest' : List Char} (ts : List Token), rest' <:+ cs → Construct.Within cs (.whole ts rest') := by
    intro rest' ts hr ts' rest'' he
    obtain ⟨_, rfl⟩ := Construct.whole.inj he
    exact hr
  have htag : ∀ closed {rest'}, rest' <:+ cs → Gives (Blames cs) (Construct.Within cs) (tag closed rest') := by
    intro closed rest' hr
    refine Gives.bind (Gives.mapM fun a ha => ?_) fun attrs _ => whole _ hr
    have hvalue := gives_decodeValueFrom a.2.length a.2
    simp only [decodeValue]
    split
    · trivial
    · rename_i f hf
      rw [hf] at hvalue
      exact (LongNumeral.mono hvalue ((hattrs a ha).trans hgap.isInfix)).blames
  have incomplete : Construct.Within cs .incomplete := nofun
  split
  · exact incomplete
  · exact htag false ((List.suffix_cons ..).trans hrest)
  · exact htag true ((List.drop_suffix _ _).trans ((List.suffix_cons ..).trans hrest))
  · split
    · exact incomplete
    · exact whole _ hrest

/-! ### Steps and passes -/

/-- A step leaves an end of the text, and one that goes on has taken a character at least. -/
def Step.Leaves (cs : List Char) : Step → Prop
  | .go _ _ rest => rest <:+ cs.tail
  | .stop _ rest => rest <:+ cs

theorem takeUnfinished_suffix (cs : List Char) : (takeUnfinished cs).2 <:+ cs := by
  unfold takeUnfinished
  split
  · rename_i s rest hs
    exact splitAt?_suffix hs
  · dsimp only
    split
    · exact List.drop_suffix _ _
    · exact List.suffix_rfl

/-- A step at a `<` leaves an end of the text, and is refused only for a numeral in it. -/
theorem gives_tagStep (last : Bool) (cs : List Char) :
    Gives (Blames cs) (Step.Leaves ('<' :: cs)) (tagStep last cs) := by
  unfold tagStep
  extract_lets finish
  -- what is made of the construct
  have hfinish : ∀ c? : Option Construct, (∀ c, c? = some c → c.Within cs) →
      Gives (Blames cs) (Step.Leaves ('<' :: cs)) (finish c?) := by
    intro c? hc
    simp only [finish]
    split
    · exact hc _ rfl _ _ rfl
    · cases last with
      | true => exact takeUnfinished_suffix cs
      | false => exact List.suffix_rfl
    · split
      · rename_i he
        rw [List.isEmpty_iff.1 he]
        exact List.suffix_rfl
      · exact List.suffix_rfl
  have hsome : ∀ {c : Construct}, c.Within cs → ∀ c', some c = some c' → c'.Within cs := by
    intro c hc c' he
    obtain rfl := Option.some.inj he
    exact hc
  split
  · exact hfinish _ (hsome ((within_endTag _).mono (List.suffix_cons ..)))
  · exact hfinish _ (hsome ((within_upTo afterAngle?_suffix _ _).mono (List.suffix_cons ..)))
  · rename_i rest
    have hrest : rest <:+ '!' :: rest := List.suffix_cons ..
    exact Gives.bind (((gives_declaration rest).mono (fun _ he => he.mono hrest.isInfix)
      fun _ hc => hc.mono hrest).map fun _ hc => hsome hc) hfinish
  · split
    · exact Gives.bind ((gives_startTag _).map fun _ hc => hsome hc) hfinish
    · exact hfinish none nofun
  · exact hfinish none nofun

/-- A step at an `&` leaves an end of the text, and is refused only for a numeral in it. -/
theorem gives_referenceStep (last : Bool) (cs : List Char) :
    Gives (Blames cs) (Step.Leaves ('&' :: cs)) (referenceStep last cs) := by
  have hcs : cs <:+ '&' :: cs := List.suffix_cons ..
  refine Gives.bind (gives_textReference? cs) fun r hr => ?_
  split
  · exact hr _ rfl
  · split
    · exact List.suffix_rfl
    · split
      · exact (List.suffix_cons ..).trans hcs
      · exact List.suffix_rfl
    · split
      · split
        · exact hcs
        · exact List.suffix_rfl
      · exact List.suffix_rfl

/-- A run of character data is not empty. -/
theorem drop_run_suffix {cs : List Char} (htag : ∀ rest, cs ≠ '<' :: rest) (href : ∀ rest, cs ≠ '&' :: rest) :
    cs.drop (cs.takeWhile fun c => !(c == '<' || c == '&')).length <:+ cs.tail := by
  cases cs with
  | nil => exact List.suffix_rfl
  | cons c cs =>
    have hc : (!(c == '<' || c == '&')) = true := by
      have hne : c ≠ '<' ∧ c ≠ '&' := ⟨fun h => htag cs (h ▸ rfl), fun h => href cs (h ▸ rfl)⟩
      simp [hne]
    rw [List.takeWhile_cons, if_pos hc, List.length_cons, List.drop_succ_cons]
    exact List.drop_suffix _ _

theorem gives_step (last : Bool) (cs : List Char) :
    Gives (Blames cs) (Step.Leaves cs) (step last cs) := by
  unfold step
  split
  · exact (gives_tagStep last _).mono (fun _ he => he.mono (List.suffix_cons ..).isInfix) fun _ hs => hs
  · exact (gives_referenceStep last _).mono (fun _ he => he.mono (List.suffix_cons ..).isInfix)
      fun _ hs => hs
  · rename_i htag href
    exact drop_run_suffix htag href

theorem afterName?_suffix {name cs rest : List Char} (h : afterName? name cs = some rest) :
    rest <:+ cs := by
  induction name generalizing cs with
  | nil =>
    obtain rfl := Option.some.inj h
    exact List.suffix_rfl
  | cons n name ih =>
    cases cs with
    | nil => cases h
    | cons c cs =>
      unfold afterName? at h
      split at h
      · exact (ih h).trans (List.suffix_cons ..)
      · cases h

theorem afterRawEnd?_suffix {name cs rest : List Char} (h : afterRawEnd? name cs = some rest) :
    rest <:+ cs.tail := by
  unfold afterRawEnd? at h
  split at h
  · rename_i rest'
    split at h
    · rename_i rest'' hn
      split at h
      · rename_i r hd
        obtain rfl := Option.some.inj h
        have hangle : '>' :: r <:+ rest'' := hd ▸ List.dropWhile_suffix _
        exact (List.suffix_cons ..).trans (hangle.trans ((afterName?_suffix hn).trans
          ((List.dropWhile_suffix _).trans (List.suffix_cons ..))))
      · cases h
    · cases h
  · cases h

theorem rawStep_leaves (name : String) (cs : List Char) : (rawStep name cs).Leaves cs := by
  unfold rawStep
  split
  · exact List.suffix_rfl
  · rename_i s rest hs
    have hrest := splitBefore?_tail afterRawEnd?_suffix hs
    dsimp only
    split <;> exact hrest

end Markup
end PageComposer
