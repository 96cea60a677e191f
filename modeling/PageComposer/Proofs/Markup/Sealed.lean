/-
# Literal constructs hold no end of their own

A literal construct is read up to the first place where one of its kind can end, so no such place is in its text
(`Token.Sealed`, `sealed_tokens`). Written with its delimiters again it is one literal construct for every reader
(`Whole`): it ends where it ended, whatever stands behind it.

| kind | not in its text | one construct again |
| --- | --- | --- |
| comment | `--`, blanks, `>` | always |
| instruction, document type | `>` | always |
| CDATA section | `]`, blanks, `]`, blanks, `>` | always |
| other marked section | nothing is left out | without `>`: it is written as an instruction |
-/

import PageComposer.Proofs.Markup.Leaves
import PageComposer.Proofs.Markup.Steps

namespace PageComposer
namespace Markup

/-! ### Texts without an end -/

section Ends

variable {close : List Char → Option (List Char)} {cs s rest more : List Char}

/-- No end is found where none begins. -/
theorem splitBefore?_eq_none_iff : splitBefore? close cs = none ↔ ∀ q, q <:+ cs → close q = none := by
  induction cs with
  | nil => simp [splitBefore?]
  | cons c cs ih =>
    rw [splitBefore?]
    constructor
    · intro h q hq
      split at h
      · cases h
      · rename_i hnone
        rw [Option.map_eq_none_iff] at h
        rcases List.suffix_cons_iff.1 hq with rfl | hq
        · exact hnone
        · exact ih.1 h q hq
    · intro h
      rw [h _ List.suffix_rfl]
      simpa using ih.2 fun q hq => h q (hq.trans (List.suffix_cons ..))

theorem splitBefore?_prefix (h : splitBefore? close cs = some (s, rest)) : s <+: cs := by
  induction cs generalizing s with
  | nil =>
    obtain ⟨r, -, he⟩ := Option.map_eq_some_iff.1 h
    obtain ⟨rfl, rfl⟩ := Prod.mk.inj he
    exact List.nil_prefix
  | cons c cs ih =>
    unfold splitBefore? at h
    split at h
    · obtain ⟨rfl, rfl⟩ := Prod.mk.inj (Option.some.inj h)
      exact List.nil_prefix
    · obtain ⟨⟨s', r⟩, hs, he⟩ := Option.map_eq_some_iff.1 h
      obtain ⟨rfl, rfl⟩ := Prod.mk.inj he
      exact List.cons_prefix_cons.2 ⟨rfl, ih hs⟩

/-- **No end is in what stands before the first one.** -/
theorem splitBefore?_before (hc : IsEnd close) (h : splitBefore? close cs = some (s, rest)) :
    splitBefore? close s = none := by
  cases hs : splitBefore? close s with
  | none => rfl
  | some found =>
    -- an end in `s` is one in the whole text, so `s` is what stands before it
    obtain ⟨s', r⟩ := found
    obtain ⟨after, rfl⟩ := splitBefore?_prefix h
    rw [splitBefore?_append hc hs] at h
    obtain ⟨rfl, -⟩ := Prod.mk.inj (Option.some.inj h)
    have hend := splitBefore?_drop hs
    rw [List.drop_length] at hend
    exact absurd (hc.mem hend) (List.not_mem_nil)

theorem splitBefore?_of_close (hclose : close more = some rest) : splitBefore? close more = some ([], rest) := by
  cases more with
  | nil => rw [splitBefore?, hclose]; rfl
  | cons c more => rw [splitBefore?, hclose]

/-- **A text without an end is what stands before one that is put behind it**, if the two make none between
them. -/
theorem splitBefore?_sealed (hc : IsEnd close) (hs : splitBefore? close s = none)
    (hseam : ∀ q, q ≠ [] → '>' ∉ q → close (q ++ more) = none) (hclose : close more = some rest) :
    splitBefore? close (s ++ more) = some (s, rest) := by
  induction s with
  | nil => exact splitBefore?_of_close hclose
  | cons c s ih =>
    rw [splitBefore?_eq_none_iff] at hs ih
    have hhere : close (c :: s ++ more) = none := by
      by_cases hangle : '>' ∈ c :: s
      · rw [hc.sees hangle, hs _ List.suffix_rfl, Option.map_none]
      · exact hseam _ (List.cons_ne_nil _ _) hangle
    rw [List.cons_append] at hhere ⊢
    rw [splitBefore?, hhere, ih fun q hq => hs q (hq.trans (List.suffix_cons ..))]
    rfl

theorem splitBefore?_of_not_mem (hc : IsEnd close) (h : '>' ∉ s) : splitBefore? close s = none := by
  cases hs : splitBefore? close s with
  | none => rfl
  | some found => exact absurd (splitBefore?_mem hc hs) h

end Ends

/-- The end of an instruction is the first angle. -/
theorem splitBefore?_angle {s : List Char} : splitBefore? afterAngle? s = none ↔ '>' ∉ s := by
  refine ⟨fun h hmem => ?_, splitBefore?_of_not_mem isEnd_afterAngle?⟩
  obtain ⟨before, after, rfl⟩ := List.append_of_mem hmem
  have := splitBefore?_eq_none_iff.1 h ('>' :: after) (List.suffix_append ..)
  cases this

theorem afterAngle?_seam (more : List Char) (q : List Char) (hq : q ≠ []) (hangle : '>' ∉ q) :
    afterAngle? (q ++ more) = none := by
  obtain ⟨c, q, rfl⟩ := List.exists_cons_of_ne_nil hq
  rw [List.cons_append, afterAngle?_cons, if_neg]
  rintro rfl
  exact hangle (List.mem_cons_self ..)

/-- A bracket behind a text without angles keeps an angle away. -/
theorem afterBrackets?_seam_one {q : List Char} (hangle : '>' ∉ q) (more : List Char) :
    afterBrackets? false (']' :: (q ++ ']' :: more)) = none := by
  rw [afterBrackets?_false]
  induction q with
  | nil => rfl
  | cons c q ih =>
    rw [List.mem_cons, not_or] at hangle
    rw [List.cons_append, List.dropWhile_cons]
    split
    · exact ih hangle.2
    · rw [afterAngle?_cons, if_neg (Ne.symm hangle.1)]

/-- Two brackets and an angle end a section where they stand, not before. -/
theorem afterBrackets?_seam (rest q : List Char) (hq : q ≠ []) (hangle : '>' ∉ q) :
    afterBrackets? true (q ++ ']' :: ']' :: '>' :: rest) = none := by
  obtain ⟨c, q, rfl⟩ := List.exists_cons_of_ne_nil hq
  rw [List.mem_cons, not_or] at hangle
  by_cases hc : c = ']'
  · subst hc
    rw [List.cons_append]
    rcases hdrop : q.dropWhile Text.isBlank with _ | ⟨d, ds⟩
    · have hblank : (q ++ ']' :: ']' :: '>' :: rest).dropWhile Text.isBlank = ']' :: ']' :: '>' :: rest := by
        rw [List.dropWhile_append, hdrop]
        rfl
      rw [afterBrackets?_true hblank]
      exact afterBrackets?_seam_one (List.not_mem_nil) _
    · have hblank : (q ++ ']' :: ']' :: '>' :: rest).dropWhile Text.isBlank =
          d :: (ds ++ ']' :: ']' :: '>' :: rest) := by
        rw [List.dropWhile_append, hdrop]
        rfl
      have hds : '>' ∉ ds := fun h => hangle.2
        ((List.dropWhile_suffix _).subset (hdrop ▸ List.mem_cons_of_mem d h))
      by_cases hd : d = ']'
      · subst hd
        rw [afterBrackets?_true hblank]
        exact afterBrackets?_seam_one hds _
      · simp [afterBrackets?, hblank, hd]
  · simp [afterBrackets?, hc]

/-- Where two brackets end a section, the second one does. -/
theorem exists_one_bracket {cs rest : List Char} (h : afterBrackets? true cs = some rest) :
    ∃ q, q <:+ cs ∧ afterBrackets? false q = some rest := by
  obtain ⟨cs, rfl⟩ : ∃ more, cs = ']' :: more := by
    unfold afterBrackets? at h
    split at h
    · exact ⟨_, rfl⟩
    · cases h
  rcases hdrop : cs.dropWhile Text.isBlank with _ | ⟨d, ds⟩
  · simp [afterBrackets?, hdrop] at h
  · by_cases hd : d = ']'
    · subst hd
      rw [afterBrackets?_true hdrop] at h
      exact ⟨_, (hdrop ▸ List.dropWhile_suffix _).trans (List.suffix_cons ..), h⟩
    · simp [afterBrackets?, hdrop, hd] at h

/-- No end by two brackets is in what stands before the first end of a marked section. -/
theorem splitBefore?_marked {double : Bool} {cs s rest : List Char}
    (h : splitBefore? (afterBrackets? double) cs = some (s, rest)) : splitBefore? (afterBrackets? true) s = none := by
  have hnone := splitBefore?_before (isEnd_afterBrackets? double) h
  cases double with
  | true => exact hnone
  | false =>
    rw [splitBefore?_eq_none_iff] at hnone ⊢
    intro q hq
    cases hfound : afterBrackets? true q with
    | none => rfl
    | some r =>
      obtain ⟨q', hq', hone⟩ := exists_one_bracket hfound
      rw [hnone q' (hq'.trans hq)] at hone
      cases hone

/-! ### Sealed tokens -/

/-- The leaf is that of a literal construct, and no end of its kind is in its text. A marked section that is not
CDATA has no kind of its own when it is written. -/
def Leaf.Sealed : Leaf → List Char → Prop
  | .text, _ => False
  | .comment, cs => splitBefore? afterDashes? cs = none
  | .instruction, cs => '>' ∉ cs
  | .doctype, cs => '>' ∉ cs
  | .cdata, cs => splitBefore? (afterBrackets? true) cs = none
  | .declaration, _ => True

/-- A token, if it is a literal construct, holds no end of its kind. -/
def Token.Sealed (t : Token) : Prop := ∀ kind cs, t.literal? = some (kind, cs) → kind.Sealed cs

/-- Tokens that all are. -/
def Sealed (ts : List Token) : Prop := ∀ t ∈ ts, t.Sealed

theorem Token.sealed_of_literal {t : Token} {kind : Leaf} {cs : List Char} (ht : t.literal? = some (kind, cs))
    (h : kind.Sealed cs) : t.Sealed := by
  intro kind' cs' he
  obtain ⟨rfl, rfl⟩ := Prod.mk.inj (Option.some.inj (ht.symm.trans he))
  exact h

theorem Token.sealed_of_none {t : Token} (ht : t.literal? = none) : t.Sealed := by
  intro kind cs he
  rw [ht] at he
  cases he

theorem Token.sealed_marked {s : List Char} (h : splitBefore? (afterBrackets? true) s = none) :
    (Token.marked s).Sealed := by
  intro kind cs he
  unfold Token.literal? at he
  dsimp only at he
  split at he
  · obtain ⟨rfl, rfl⟩ := Prod.mk.inj (Option.some.inj he)
    exact splitBefore?_eq_none_iff.2 fun q hq =>
      splitBefore?_eq_none_iff.1 h q (hq.trans (List.drop_suffix 6 s))
  · obtain ⟨rfl, -⟩ := Prod.mk.inj (Option.some.inj he)
    trivial

theorem sealed_nil : Sealed [] := by simp [Sealed]

theorem sealed_singleton {t : Token} : Sealed [t] ↔ t.Sealed := by simp [Sealed]

theorem Sealed.append {ts us : List Token} (ht : Sealed ts) (hu : Sealed us) : Sealed (ts ++ us) :=
  fun t h => (List.mem_append.1 h).elim (ht t) (hu t)

theorem sealed_text (s : List Char) : Sealed [.text s] := sealed_singleton.2 (Token.sealed_of_none rfl)

/-- The tokens of a construct. -/
def Construct.tokens : Construct → List Token
  | .whole ts _ => ts
  | .incomplete => []

/-- The tokens of a step. -/
def Step.tokens : Step → List Token
  | .go ts _ _ => ts
  | .stop ts _ => ts

theorem sealed_upTo {close : List Char → Option (List Char)} {token : List Char → Token} {cs : List Char}
    (h : ∀ s rest, splitBefore? close cs = some (s, rest) → (token s).Sealed) : Sealed (upTo close token cs).tokens := by
  unfold upTo
  split
  · rename_i s rest hs
    exact sealed_singleton.2 (h s rest hs)
  · exact sealed_nil

/-- What an angle ends holds none. -/
theorem not_mem_of_splitBefore? {cs s rest : List Char} (h : splitBefore? afterAngle? cs = some (s, rest)) : '>' ∉ s :=
  splitBefore?_angle.1 (splitBefore?_before isEnd_afterAngle? h)

/-- A comment that an angle ends holds no other end. -/
theorem sealed_comment {s : List Char} (h : '>' ∉ s) : (Token.comment s).Sealed :=
  Token.sealed_of_literal rfl (splitBefore?_of_not_mem isEnd_afterDashes? h)

/-- What stands before the first of a character does not hold it. -/
theorem splitAt?_not_mem {c : Char} {cs s rest : List Char} (h : splitAt? c cs = some (s, rest)) : c ∉ s := by
  unfold splitAt? at h
  dsimp only at h
  split at h
  · obtain ⟨rfl, -⟩ := Prod.mk.inj (Option.some.inj h)
    intro hmem
    simpa using List.mem_takeWhile_imp hmem
  · cases h

theorem sealed_endTag (cs : List Char) : Sealed (endTag cs).tokens := by
  unfold endTag
  split
  · exact sealed_nil
  · rename_i inner rest hsplit
    split
    · exact sealed_singleton.2 (Token.sealed_of_none rfl)
    · split
      · exact sealed_nil
      · split
        · exact sealed_singleton.2 (Token.sealed_of_none rfl)
        · exact sealed_singleton.2 (sealed_comment (splitAt?_not_mem hsplit))

theorem sealed_markedSection (cs : List Char) :
    Gives (fun _ => True) (fun c => Sealed c.tokens) (markedSection cs) := by
  have hmarked (double : Bool) (cs : List Char) : Sealed (upTo (afterBrackets? double) .marked cs).tokens :=
    sealed_upTo fun s rest hs => Token.sealed_marked (splitBefore?_marked hs)
  unfold markedSection
  split
  · exact sealed_nil
  · split
    · dsimp only
      split
      · exact sealed_nil
      · split
        · exact hmarked true _
        · split
          · exact hmarked false _
          · trivial
    · trivial

theorem sealed_declaration (cs : List Char) :
    Gives (fun _ => True) (fun c => Sealed c.tokens) (declaration cs) := by
  unfold declaration
  split
  · exact sealed_upTo fun s rest hs =>
      Token.sealed_of_literal rfl (splitBefore?_before isEnd_afterDashes? hs)
  · exact sealed_markedSection _
  · split
    · refine sealed_upTo fun s rest hs => @Token.sealed_of_literal _ .doctype _ rfl ?_
      exact fun hmem => not_mem_of_splitBefore? hs (List.mem_of_mem_drop hmem)
    · exact sealed_upTo fun s rest hs => sealed_comment (not_mem_of_splitBefore? hs)

theorem sealed_startTag (cs : List Char) : Gives (fun _ => True) (fun c => Sealed c.tokens) (startTag cs) := by
  have htag (attrs : List (List Char × List Char)) (name : String) (closed : Bool) (rest : List Char) :
      Gives (fun _ => True) (fun c : Construct => Sealed c.tokens)
        ((attrs.mapM readAttr).map fun as => .whole [.startTag name as closed] rest) := by
    cases attrs.mapM readAttr with
    | error f => trivial
    | ok as => exact sealed_singleton.2 (Token.sealed_of_none rfl)
  rw [startTag_eq]
  unfold tagEnd
  extract_lets tag
  split
  · exact sealed_nil
  · exact htag _ _ false _
  · exact htag _ _ true _
  · split
    · exact sealed_nil
    · exact sealed_text _

theorem sealed_tagStep (last : Bool) (cs : List Char) :
    Gives (fun _ => True) (fun s => Sealed s.tokens) (tagStep last cs) := by
  unfold tagStep
  extract_lets finish
  have hfinish : ∀ c? : Option Construct, (∀ c ∈ c?, Sealed c.tokens) →
      Gives (fun _ => True) (fun s => Sealed s.tokens) (finish c?) := by
    intro c? hc
    simp only [finish]
    split
    · exact hc _ rfl
    · cases last with
      | true => exact sealed_text _
      | false => exact sealed_nil
    · split
      · exact sealed_nil
      · exact sealed_text _
  have hsome : ∀ {c : Construct}, Sealed c.tokens → ∀ c' ∈ some c, Sealed c'.tokens := by
    intro c hc c' he
    obtain rfl := Option.some.inj he
    exact hc
  split
  · exact hfinish _ (hsome (sealed_endTag _))
  · refine hfinish _ (hsome (sealed_upTo fun s rest hs => ?_))
    exact Token.sealed_of_literal rfl (not_mem_of_splitBefore? hs)
  · exact Gives.bind ((sealed_declaration _).map fun _ hc => hsome hc) hfinish
  · split
    · exact Gives.bind ((sealed_startTag _).map fun _ hc => hsome hc) hfinish
    · exact hfinish none nofun
  · exact hfinish none nofun

theorem sealed_referenceStep (last : Bool) (cs : List Char) :
    Gives (fun _ => True) (fun s => Sealed s.tokens) (referenceStep last cs) := by
  refine Gives.bind ((gives_textReference? cs).mono (fun _ _ => trivial) fun _ h => h) fun r _ => ?_
  split
  · exact sealed_text _
  · split
    · exact sealed_nil
    · split
      · exact sealed_text _
      · exact sealed_nil
    · split
      · split <;> exact sealed_nil
      · exact sealed_text _

theorem sealed_step (last : Bool) (cs : List Char) :
    Gives (fun _ => True) (fun s => Sealed s.tokens) (step last cs) := by
  unfold step
  split
  · exact sealed_tagStep last _
  · exact sealed_referenceStep last _
  · exact sealed_text _

/-- Raw content is character data and an end tag. -/
theorem sealed_rawStep (name : String) (cs : List Char) : Sealed (rawStep name cs).tokens := by
  rw [rawStep_eq]
  split
  · exact sealed_nil
  · rename_i s rest hs
    have hdata : Sealed (if s.isEmpty then [] else [Token.text s]) := by
      split
      · exact sealed_nil
      · exact sealed_text s
    unfold rawEnd
    dsimp only
    split
    · exact hdata.append (sealed_singleton.2 (Token.sealed_of_none rfl))
    · exact hdata.append (sealed_text _)

theorem sealed_pass (last : Bool) (fuel : Nat) (raw : Option String) (cs : List Char) :
    Gives (fun _ => True) (fun r => Sealed r.1) (pass last fuel raw cs) := by
  induction fuel generalizing raw cs with
  | zero => exact sealed_nil
  | succ fuel ih =>
    by_cases hne : cs = []
    · subst hne
      exact sealed_nil
    rw [pass_succ hne]
    have hnext : Gives (fun _ => True) (fun s => Sealed s.tokens) (nextStep last raw cs) := by
      cases raw with
      | some name => exact sealed_rawStep name cs
      | none => exact sealed_step last cs
    refine hnext.bind fun s hs => ?_
    cases s with
    | stop ts rest => exact hs
    | go ts raw rest => exact (ih raw rest).map fun _ hr => hs.append hr

/-- **Every literal construct of a text holds no end of its kind.** -/
theorem sealed_tokens {s : String} {ts : List Token} (h : tokens s = .ok ts) : Sealed ts := by
  have hall : Gives (fun _ => True) Sealed (tokens s) := by
    refine (sealed_pass false _ none s.toList).bind fun first hfirst => ?_
    refine (sealed_pass true _ _ _).bind fun second hsecond => ?_
    refine (hfirst.append hsecond).append ?_
    split
    · exact sealed_text _
    · exact sealed_nil
  rw [h] at hall
  exact hall

/-! ### Literal constructs as they are written -/

/-- The text is one literal construct, for either pass and whatever stands behind it. -/
def Whole (cs : List Char) : Prop :=
  ∃ t : Token, t.literal?.isSome = true ∧ ∀ last rest, step last (cs ++ rest) = .ok (.go [t] none rest)

variable {cs : List Char}

theorem whole_comment (h : splitBefore? afterDashes? cs = none) : Whole ("<!--".toList ++ cs ++ "-->".toList) := by
  refine ⟨.comment cs, rfl, fun last rest => ?_⟩
  have hchars : "<!--".toList ++ cs ++ "-->".toList ++ rest =
      '<' :: '!' :: '-' :: '-' :: (cs ++ '-' :: '-' :: '>' :: rest) := by simp
  have hsplit := splitBefore?_sealed isEnd_afterDashes? h (fun q hq hangle => afterDashes?_comment hangle hq rest) rfl
  rw [hchars, step, tagStep]
  simp only [declaration, upTo, hsplit]
  rfl

theorem whole_instruction (h : '>' ∉ cs) : Whole ("<?".toList ++ cs ++ ">".toList) := by
  refine ⟨.instruction cs, rfl, fun last rest => ?_⟩
  have hchars : "<?".toList ++ cs ++ ">".toList ++ rest = '<' :: '?' :: (cs ++ '>' :: rest) := by simp
  have hsplit := splitBefore?_sealed isEnd_afterAngle? (splitBefore?_angle.2 h) (afterAngle?_seam ('>' :: rest)) rfl
  rw [hchars, step, tagStep]
  simp only [upTo, hsplit]
  rfl

theorem whole_doctype (h : '>' ∉ cs) : Whole ("<!DOCTYPE ".toList ++ cs ++ ">".toList) := by
  refine ⟨.doctype cs, rfl, fun last rest => ?_⟩
  have hchars : "<!DOCTYPE ".toList ++ cs ++ ">".toList ++ rest =
      '<' :: '!' :: ("DOCTYPE".toList ++ (' ' :: cs ++ '>' :: rest)) := by simp
  have hdeclaration (more : List Char) : declaration ("DOCTYPE".toList ++ more) =
      .ok (upTo afterAngle? (fun s => .doctype (s.drop 1)) more) := rfl
  have hsplit := splitBefore?_sealed (s := ' ' :: cs) isEnd_afterAngle?
    (splitBefore?_angle.2 (by simpa using h)) (afterAngle?_seam ('>' :: rest)) rfl
  rw [hchars, step, tagStep, hdeclaration]
  simp only [upTo, hsplit]
  rfl

/-- No section ends at a character that is no bracket. -/
theorem splitBefore?_unbracketed {front : List Char} (hfront : ']' ∉ front)
    (h : splitBefore? (afterBrackets? true) cs = none) : splitBefore? (afterBrackets? true) (front ++ cs) = none := by
  induction front with
  | nil => exact h
  | cons c front ih =>
    rw [List.mem_cons, not_or] at hfront
    have hhere : afterBrackets? true (c :: (front ++ cs)) = none := by
      simp [afterBrackets?, Ne.symm hfront.1]
    rw [List.cons_append, splitBefore?, hhere, ih hfront.2]
    rfl

theorem whole_cdata (h : splitBefore? (afterBrackets? true) cs = none) :
    Whole ("<![CDATA[".toList ++ cs ++ "]]>".toList) := by
  refine ⟨.marked ("CDATA[".toList ++ cs), rfl, fun last rest => ?_⟩
  have hchars : "<![CDATA[".toList ++ cs ++ "]]>".toList ++ rest =
      '<' :: '!' :: '[' :: ("CDATA[".toList ++ cs ++ ']' :: ']' :: '>' :: rest) := by simp
  have hname := @splitBefore?_unbracketed cs "CDATA[".toList (by decide) h
  have hsection (more : List Char) : declaration ('[' :: ("CDATA[".toList ++ more)) =
      .ok (upTo (afterBrackets? true) .marked ("CDATA[".toList ++ more)) := rfl
  have hsplit := splitBefore?_sealed (isEnd_afterBrackets? true) hname (afterBrackets?_seam rest) rfl
  rw [hchars, step, tagStep, List.append_assoc, hsection, ← List.append_assoc]
  simp only [upTo, hsplit]
  rfl

/-! ### Leaves -/

/-- Blanks that become one are sealed. -/
theorem Leaf.Sealed.collapse {kind : Leaf} (h : kind.Sealed cs) (b : Builder) : kind.Sealed (b.collapse cs) := by
  have hblank (c : Char) (hc : c = '\n' ∨ c = ' ') : kind.Sealed [c] := by
    cases kind with
    | text => exact h
    | _ => rcases hc with rfl | rfl <;> simp [Leaf.Sealed] <;> rfl
  unfold Builder.collapse
  split
  · split
    · exact hblank _ (.inl rfl)
    · exact hblank _ (.inr rfl)
  · exact h

end Markup
end PageComposer
