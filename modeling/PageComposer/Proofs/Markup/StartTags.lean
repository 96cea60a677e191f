/-
# What a start tag depends on

A reader looks one character beyond what it takes, and further only for a quote that is not closed. So a start tag
that ends before a hole, or an attribute in it, is read in the same way whatever stands in the hole and behind
it, if quotes of both kinds stand there (`IsHole`).

| reader | the same before a hole |
| --- | --- |
| run of characters of a kind, gap | `run_local`, `skipGap_local` |
| value | `valueAfter_local` |
| attribute, all attributes | `nextAttr?_local`, `attrsOf_local` |
| start tag | `startTag_local` |

Each statement says of a text `p ++ H`, of which more than `H` is left, that from `p ++ R` the same is taken and the
same is left of `p`, for every text `R`.
-/

import Mathlib.Data.List.TakeWhile
import PageComposer.Proofs.Markup.Tails

namespace PageComposer
namespace Markup

/-! ### Runs -/

variable {p H : List Char}

/-- A run that ends before `H` is the same whatever stands there. -/
theorem run_local {f : Char → Bool} (h : H.length < ((p ++ H).dropWhile f).length) :
    p.dropWhile f ≠ [] ∧
      ∀ R, (p ++ R).dropWhile f = p.dropWhile f ++ R ∧ (p ++ R).takeWhile f = p.takeWhile f := by
  have hne : p.dropWhile f ≠ [] := by
    intro hnil
    rw [List.dropWhile_append, hnil] at h
    have := (List.dropWhile_suffix (l := H) f).length_le
    simp only [List.isEmpty_nil, if_true] at h
    omega
  have hlength : (p.takeWhile f).length ≠ p.length := by
    intro he
    have hsplit := congrArg List.length (List.takeWhile_append_dropWhile (p := f) (l := p))
    rw [List.length_append] at hsplit
    exact hne (List.length_eq_zero_iff.1 (by omega))
  refine ⟨hne, fun R => ⟨?_, ?_⟩⟩
  · rw [List.dropWhile_append, if_neg (by simpa using hne)]
  · rw [List.takeWhile_append, if_neg hlength]

/-! ### Gaps -/

theorem skipGap_cons (c : Char) (cs : List Char) :
    skipGap (c :: cs) =
      if c = '/' then if cs.head? = some '>' then c :: cs else skipGap cs
      else if Text.isBlank c then skipGap cs else c :: cs := by
  rw [skipGap.eq_def]
  split
  · rename_i he
    cases he
  · rename_i rest he
    obtain ⟨rfl, rfl⟩ := List.cons.inj he
    rw [if_pos rfl]
    split
    · rfl
    · rename_i hne
      rw [if_neg]
      intro hhead
      obtain ⟨d, ds, rfl⟩ := List.exists_cons_of_ne_nil (fun hnil : cs = [] => by simp [hnil] at hhead)
      exact hne ds (by rw [Option.some.inj hhead])
  · rename_i c' rest hne he
    obtain ⟨rfl, rfl⟩ := List.cons.inj he
    rw [if_neg hne]

/-- A gap that ends before `H` is the same whatever stands there. -/
theorem skipGap_local (hH : H.head? ≠ some '>') (h : H.length < (skipGap (p ++ H)).length) :
    ∃ q, q ≠ [] ∧ ∀ R, skipGap (p ++ R) = q ++ R := by
  induction p with
  | nil =>
    have := (skipGap_suffix H).length_le
    rw [List.nil_append] at h
    omega
  | cons c p ih =>
    rw [List.cons_append, skipGap_cons] at h
    split at h
    · rename_i hc
      cases p with
      | nil =>
        have := (skipGap_suffix H).length_le
        rw [List.nil_append, if_neg hH] at h
        omega
      | cons d p =>
        by_cases hd : d = '>'
        · refine ⟨c :: d :: p, List.cons_ne_nil _ _, fun R => ?_⟩
          rw [List.cons_append, skipGap_cons, if_pos hc, if_pos (by simp [hd])]
        · rw [if_neg (by simpa using hd)] at h
          obtain ⟨q, hq, hR⟩ := ih h
          refine ⟨q, hq, fun R => ?_⟩
          rw [List.cons_append, skipGap_cons, if_pos hc, if_neg (by simpa using hd), hR]
    · rename_i hc
      split at h
      · rename_i hb
        obtain ⟨q, hq, hR⟩ := ih h
        refine ⟨q, hq, fun R => ?_⟩
        rw [List.cons_append, skipGap_cons, if_neg hc, if_pos hb, hR]
      · rename_i hb
        refine ⟨c :: p, List.cons_ne_nil _ _, fun R => ?_⟩
        rw [List.cons_append, skipGap_cons, if_neg hc, if_neg hb]

/-! ### Values -/

theorem takeBare_local (h : H.length < (takeBare (p ++ H)).2.length) :
    ∃ q, q ≠ [] ∧ ∀ R, takeBare (p ++ R) = ((takeBare (p ++ H)).1, q ++ R) := by
  simp only [takeBare, drop_length_takeWhile] at h ⊢
  obtain ⟨hq, hR⟩ := run_local h
  exact ⟨_, hq, fun R => by rw [(hR R).1, (hR R).2, (hR H).2]⟩

theorem takeQuoted?_eq (quote : Char) (cs : List Char) :
    takeQuoted? quote cs = match cs.dropWhile (· != quote) with
      | _ :: rest => some (cs.takeWhile (· != quote), rest)
      | [] => none := by
  rw [takeQuoted?, drop_length_takeWhile] <;> rfl

theorem takeQuoted?_local {quote : Char} {v r : List Char} (h : takeQuoted? quote (p ++ H) = some (v, r))
    (hr : H.length < r.length) : ∃ q, q ≠ [] ∧ ∀ R, takeQuoted? quote (p ++ R) = some (v, q ++ R) := by
  rw [takeQuoted?_eq] at h
  split at h
  · rename_i c rest hd
    simp only [Option.some.injEq, Prod.mk.injEq] at h
    obtain ⟨rfl, rfl⟩ := h
    obtain ⟨hne, hR⟩ := run_local (p := p) (H := H) (f := (· != quote)) (by rw [hd, List.length_cons]; omega)
    obtain ⟨c', q, hq⟩ := List.exists_cons_of_ne_nil hne
    have hH := (hR H).1
    rw [hd, hq, List.cons_append] at hH
    obtain ⟨rfl, rfl⟩ := List.cons.inj hH
    refine ⟨q, ?_, fun R => ?_⟩
    · rintro rfl
      simp at hr
    · rw [takeQuoted?_eq, (hR R).1, hq, List.cons_append, (hR R).2, (hR H).2]
  · cases h

/-- A quote is not closed where it does not stand again. -/
theorem takeQuoted?_eq_none {quote : Char} {cs : List Char} (h : takeQuoted? quote cs = none) : quote ∉ cs := by
  rw [takeQuoted?_eq] at h
  split at h
  · cases h
  · rename_i hd
    intro hmem
    have := List.dropWhile_eq_nil_iff.1 hd quote hmem
    simp at this

/-- The value that begins at `body`, behind equals signs, several of them or one, and perhaps blanks. -/
def bodyValue (several spaced : Bool) (body : List Char) : Option (List Char × Bool × List Char) :=
  let bare (from_ : List Char) :=
    let (v, rest) := takeBare from_
    some (v, false, rest)
  match body with
  | [] => bare body
  | c :: rest =>
    if isQuote c then
      match takeQuoted? c rest with
      | some (v, rest) => some (v, true, rest)
      | none =>
        if spaced then some ([], false, ' ' :: body)
        else if several then bare ('=' :: body)
        else none
    else bare body

theorem takeValue?_eq (cs : List Char) :
    takeValue? cs =
      let afterBlanks := cs.dropWhile Text.isBlank
      let signs := afterBlanks.takeWhile (· == '=')
      if signs.isEmpty then none
      else
        let afterSigns := afterBlanks.dropWhile (· == '=')
        bodyValue (1 < signs.length) (!(afterSigns.takeWhile Text.isBlank).isEmpty) (afterSigns.dropWhile Text.isBlank) := by
  unfold takeValue? bodyValue
  simp only [drop_length_takeWhile, decide_eq_true_eq] <;> rfl

/-- What stands behind a value, but for a gap, is not more than what the value begins. -/
theorem length_bodyValue_le {several spaced : Bool} {body v r : List Char} {quoted : Bool}
    (h : bodyValue several spaced body = some (v, quoted, r)) : (skipGap r).length ≤ body.length := by
  have bare : ∀ cs, (takeBare cs).2 = r → (skipGap r).length ≤ cs.length := by
    rintro cs rfl
    exact ((skipGap_suffix _).trans (takeBare_pieces cs).2).length_le
  cases body with
  | nil =>
    simp only [bodyValue, Option.some.injEq, Prod.mk.injEq] at h
    exact bare [] h.2.2
  | cons c rest =>
    simp only [bodyValue] at h
    split at h
    · split at h
      · rename_i v' r' hq
        simp only [Option.some.injEq, Prod.mk.injEq] at h
        obtain ⟨-, -, rfl⟩ := h
        exact ((skipGap_suffix _).trans ((takeQuoted?_pieces hq).2.trans (List.suffix_cons ..))).length_le
      · split at h
        · simp only [Option.some.injEq, Prod.mk.injEq] at h
          obtain ⟨-, -, rfl⟩ := h
          exact (skipGap_suffix (c :: rest)).length_le
        · split at h
          · simp only [Option.some.injEq, Prod.mk.injEq] at h
            obtain ⟨-, -, rfl⟩ := h
            have hdrop : (takeBare ('=' :: c :: rest)).2 <:+ c :: rest := by
              have hsign : (takeBare ('=' :: c :: rest)).2 = (c :: rest).dropWhile fun c => !(c == '>' || Text.isBlank c) := by
                simp only [takeBare, drop_length_takeWhile]
                exact List.dropWhile_cons_of_pos (by decide)
              rw [hsign]
              exact List.dropWhile_suffix _
            exact ((skipGap_suffix _).trans hdrop).length_le
          · cases h
    · simp only [Option.some.injEq, Prod.mk.injEq] at h
      exact bare _ h.2.2

/-- A hole as it stands in a text: it begins with an equals sign, and quotes of both kinds stand in it. -/
structure IsHole (H : List Char) : Prop where
  sign : H.head? = some '='
  quotes : ∀ c, isQuote c = true → c ∈ H

theorem IsHole.eq_cons (hH : IsHole H) : ∃ X, H = '=' :: X := by
  cases H with
  | nil => cases hH.sign
  | cons c X => exact ⟨X, by rw [Option.some.inj hH.sign]⟩

theorem bodyValue_local (hH : IsHole H) {several spaced : Bool} {v r : List Char} {quoted : Bool} (hp : p ≠ [])
    (h : bodyValue several spaced (p ++ H) = some (v, quoted, r)) (hr : H.length < (skipGap r).length) :
    ∃ q, q ≠ [] ∧ ∀ R, bodyValue several spaced (p ++ R) = some (v, quoted, q ++ R) := by
  have hgap := (skipGap_suffix r).length_le
  obtain ⟨c, p, rfl⟩ := List.exists_cons_of_ne_nil hp
  simp only [bodyValue, List.cons_append] at h ⊢
  by_cases hc : isQuote c = true
  · simp only [hc, if_true] at h ⊢
    split at h
    · rename_i v' r' hq
      simp only [Option.some.injEq, Prod.mk.injEq] at h
      obtain ⟨rfl, rfl, rfl⟩ := h
      obtain ⟨q, hne, hR⟩ := takeQuoted?_local hq (by omega)
      exact ⟨q, hne, fun R => by rw [hR]⟩
    · rename_i hq
      exact absurd (List.mem_append_right p (hH.quotes c hc)) (takeQuoted?_eq_none hq)
  · rw [Bool.not_eq_true] at hc
    simp only [hc, Bool.false_eq_true, if_false, Option.some.injEq, Prod.mk.injEq] at h ⊢
    obtain ⟨rfl, rfl, rfl⟩ := h
    obtain ⟨q, hne, hR⟩ := takeBare_local (p := c :: p) (H := H) (by rw [List.cons_append]; omega)
    refine ⟨q, hne, fun R => ?_⟩
    have := hR R
    rw [List.cons_append, List.cons_append] at this
    simp [this]

/-- A run of blanks or signs in front of a hole. -/
theorem takeValue?_local_some (hH : IsHole H) {v r : List Char} {quoted : Bool}
    (h : takeValue? (p ++ H) = some (v, quoted, r)) (hr : H.length < (skipGap r).length) :
    ∃ q, q ≠ [] ∧ ∀ R, takeValue? (p ++ R) = some (v, quoted, q ++ R) := by
  rw [takeValue?_eq] at h
  dsimp only at h
  split at h
  · cases h
  · rename_i hsigns
    have hbody := length_bodyValue_le h
    have hsuffix₁ := (List.dropWhile_suffix (l := ((p ++ H).dropWhile Text.isBlank).dropWhile (· == '=')) Text.isBlank).length_le
    have hsuffix₂ := (List.dropWhile_suffix (l := (p ++ H).dropWhile Text.isBlank) (· == '=')).length_le
    obtain ⟨hne₁, hR₁⟩ := run_local (p := p) (H := H) (f := Text.isBlank) (by omega)
    rw [(hR₁ H).1] at h hsigns hbody hsuffix₁ hsuffix₂
    obtain ⟨hne₂, hR₂⟩ := run_local (p := p.dropWhile Text.isBlank) (H := H) (f := (· == '=')) (by omega)
    rw [(hR₂ H).1] at h hbody hsuffix₁
    rw [(hR₂ H).2] at h hsigns
    obtain ⟨hne₃, hR₃⟩ := run_local (p := (p.dropWhile Text.isBlank).dropWhile (· == '=')) (H := H) (f := Text.isBlank) (by omega)
    rw [(hR₃ H).1, (hR₃ H).2] at h
    obtain ⟨q, hq, hR⟩ := bodyValue_local hH hne₃ h hr
    refine ⟨q, hq, fun R => ?_⟩
    rw [takeValue?_eq]
    dsimp only
    rw [(hR₁ R).1, (hR₂ R).1, (hR₂ R).2, (hR₃ R).1, (hR₃ R).2, if_neg hsigns, hR]

/-- No value follows behind a sign where a quote is not closed. -/
theorem bodyValue_eq_none {several spaced : Bool} {body : List Char} (h : bodyValue several spaced body = none) :
    several = false ∧ spaced = false ∧ ∃ c rest, body = c :: rest ∧ isQuote c = true ∧ c ∉ rest := by
  cases body with
  | nil => cases h
  | cons c rest =>
    simp only [bodyValue] at h
    split at h
    · rename_i hc
      split at h
      · cases h
      · rename_i hq
        split at h
        · cases h
        · rename_i hspaced
          split at h
          · cases h
          · rename_i hseveral
            exact ⟨by simpa using hseveral, by simpa using hspaced, c, rest, rfl, hc, takeQuoted?_eq_none hq⟩
    · cases h

theorem skipGap_dropWhile (cs : List Char) : skipGap (cs.dropWhile Text.isBlank) = skipGap cs := by
  induction cs with
  | nil => rfl
  | cons c cs ih =>
    rw [List.dropWhile_cons]
    split
    · rename_i hb
      have hc : c ≠ '/' := by
        rintro rfl
        exact absurd hb (by decide)
      rw [ih, skipGap_cons, if_neg hc, if_pos hb]
    · rfl

/-- Where no value follows before a hole, none follows whatever stands there. -/
theorem takeValue?_local_none (hH : IsHole H) (h : takeValue? (p ++ H) = none)
    (hr : H.length < (skipGap (p ++ H)).length) : ∀ R, takeValue? (p ++ R) = none := by
  have hsuffix : (p ++ H).dropWhile Text.isBlank <:+ p ++ H := List.dropWhile_suffix _
  rw [takeValue?_eq] at h
  dsimp only at h
  split at h
  · rename_i hsigns
    -- a hole would begin with a sign
    have hp : p.dropWhile Text.isBlank ≠ [] := by
      intro hnil
      obtain ⟨X, rfl⟩ := hH.eq_cons
      rw [List.dropWhile_append, hnil] at hsigns
      exact absurd hsigns (by simp [List.dropWhile_cons_of_neg (by decide : ¬Text.isBlank '=' = true)])
    obtain ⟨d, q, hq⟩ := List.exists_cons_of_ne_nil hp
    have hdrop (R : List Char) : (p ++ R).dropWhile Text.isBlank = d :: (q ++ R) := by
      rw [List.dropWhile_append, hq]
      rfl
    intro R
    rw [hdrop] at hsigns
    have hd : (d == '=') = false := by
      cases he : d == '=' with
      | false => rfl
      | true => simp [he] at hsigns
    rw [takeValue?_eq]
    simp [hdrop, hd]
  · rename_i hsigns
    obtain ⟨hseveral, hspaced, c, rest, hbody, hc, hnot⟩ := bodyValue_eq_none h
    rw [← skipGap_dropWhile] at hr
    generalize (p ++ H).dropWhile Text.isBlank = D at hsuffix hr hsigns hseveral hspaced hbody
    have hD := congrArg List.length (List.takeWhile_append_dropWhile (p := (· == '=')) (l := D))
    have hblanks := List.takeWhile_append_dropWhile (p := Text.isBlank) (l := D.dropWhile (· == '='))
    have hnil : (D.dropWhile (· == '=')).takeWhile Text.isBlank = [] := by simpa using hspaced
    rw [hnil, List.nil_append, hbody] at hblanks
    have hrest : c :: rest <:+ D := hblanks ▸ List.dropWhile_suffix _
    have hone : (D.takeWhile (· == '=')).length ≤ 1 := by simpa using hseveral
    have hgap := (skipGap_suffix D).length_le
    rw [List.length_append, ← hblanks, List.length_cons] at hD
    have hH' : H <:+ c :: rest := List.suffix_of_suffix_length_le (List.suffix_append p H) (hrest.trans hsuffix)
      (by rw [List.length_cons]; omega)
    rcases List.suffix_cons_iff.1 hH' with rfl | hin
    · have hsign := hH.sign
      obtain rfl := Option.some.inj hsign
      exact absurd hc (by decide)
    · exact absurd (hin.subset (hH.quotes c hc)) hnot

/-! ### Attributes -/

/-- The value behind a name, whether it stood in quotes, and what is left. -/
def valueAfter (name afterName : List Char) : List Char × Bool × List Char :=
  match takeValue? afterName with
  | some x => x
  | none => ([], isQuote (name.getLastD ' '), afterName)

theorem valueAfter_suffix (name cs : List Char) : skipGap (valueAfter name cs).2.2 <:+ cs := by
  unfold valueAfter
  split
  · rename_i x hx
    exact (takeValue?_pieces hx).2
  · exact skipGap_suffix cs

theorem valueAfter_local (hH : IsHole H) {name : List Char}
    (h : H.length < (skipGap (valueAfter name (p ++ H)).2.2).length) :
    ∃ v quoted q, q ≠ [] ∧ ∀ R, valueAfter name (p ++ R) = (v, quoted, q ++ R) := by
  unfold valueAfter at h ⊢
  cases hv : takeValue? (p ++ H) with
  | none =>
    rw [hv] at h
    have hR := takeValue?_local_none hH hv h
    have hp : p ≠ [] := by
      rintro rfl
      have := (skipGap_suffix H).length_le
      simp only [List.nil_append] at h
      omega
    exact ⟨[], _, p, hp, fun R => by rw [hR]⟩
  | some x =>
    obtain ⟨v, quoted, r⟩ := x
    rw [hv] at h
    obtain ⟨q, hq, hR⟩ := takeValue?_local_some hH hv h
    exact ⟨v, quoted, q, hq, fun R => by rw [hR]⟩

/-- The attribute that begins a text: its name and value, whether another may follow at once, and what is left behind
the gap after it. -/
def nextAttr? (ready : Bool) : List Char → Option ((List Char × List Char) × Bool × List Char)
  | [] => none
  | c :: rest =>
    if !ready || Text.isBlank c || c == '/' || c == '>' then none
    else
      let name := c :: rest.takeWhile isAttrNameChar
      let value := valueAfter name (rest.dropWhile isAttrNameChar)
      let next := skipGap value.2.2
      some ((name, value.1), next.length < value.2.2.length || value.2.1, next)

theorem takeAttrs_succ (fuel : Nat) (ready : Bool) (cs : List Char) :
    takeAttrs (fuel + 1) ready cs =
      match nextAttr? ready cs with
      | none => ([], cs)
      | some (a, ready', next) => (a :: (takeAttrs fuel ready' next).1, (takeAttrs fuel ready' next).2) := by
  cases cs with
  | nil => rfl
  | cons c rest =>
    rw [takeAttrs, nextAttr?]
    simp only [drop_length_takeWhile, valueAfter, List.getLastD_cons]
    split
    · rfl
    · cases takeValue? (rest.dropWhile isAttrNameChar) <;> rfl

/-- An attribute takes a character at least. -/
theorem nextAttr?_tail {ready ready' : Bool} {cs next : List Char} {a : List Char × List Char}
    (h : nextAttr? ready cs = some (a, ready', next)) : cs ≠ [] ∧ next <:+ cs.tail := by
  cases cs with
  | nil => cases h
  | cons c rest =>
    rw [nextAttr?] at h
    split at h
    · cases h
    · simp only [Option.some.injEq, Prod.mk.injEq] at h
      obtain ⟨-, -, rfl⟩ := h
      exact ⟨List.cons_ne_nil _ _, (valueAfter_suffix _ _).trans (List.dropWhile_suffix isAttrNameChar)⟩

theorem length_lt_of_nextAttr? {ready ready' : Bool} {cs next : List Char} {a : List Char × List Char}
    (h : nextAttr? ready cs = some (a, ready', next)) : next.length < cs.length := by
  obtain ⟨hne, hnext⟩ := nextAttr?_tail h
  have hle := hnext.length_le
  have hpos := List.length_pos_iff.2 hne
  rw [List.length_tail] at hle
  omega

theorem takeAttrs_fuel {fuel fuel' : Nat} {ready : Bool} {cs : List Char} (h : cs.length < fuel)
    (h' : cs.length < fuel') : takeAttrs fuel ready cs = takeAttrs fuel' ready cs := by
  induction fuel generalizing fuel' ready cs with
  | zero => omega
  | succ fuel ih =>
    obtain ⟨fuel', rfl⟩ : ∃ k, fuel' = k + 1 := ⟨fuel' - 1, by omega⟩
    rw [takeAttrs_succ, takeAttrs_succ]
    split
    · rfl
    · rename_i a ready' next hn
      have hless := length_lt_of_nextAttr? hn
      rw [ih (by omega) (by omega : next.length < fuel')]

/-- All attributes that follow, and what is left. -/
def attrsOf (ready : Bool) (cs : List Char) : List (List Char × List Char) × List Char :=
  takeAttrs (cs.length + 1) ready cs

theorem attrsOf_none {ready : Bool} {cs : List Char} (h : nextAttr? ready cs = none) : attrsOf ready cs = ([], cs) := by
  rw [attrsOf, takeAttrs_succ, h]

theorem attrsOf_some {ready ready' : Bool} {cs next : List Char} {a : List Char × List Char}
    (h : nextAttr? ready cs = some (a, ready', next)) :
    attrsOf ready cs = (a :: (attrsOf ready' next).1, (attrsOf ready' next).2) := by
  have hless := length_lt_of_nextAttr? h
  rw [attrsOf, takeAttrs_succ, h]
  simp only [attrsOf, takeAttrs_fuel hless (Nat.lt_succ_self next.length)]

/-- An attribute before a hole is the same whatever stands there. -/
theorem nextAttr?_local (hH : IsHole H) {ready ready' : Bool} {a : List Char × List Char} {next : List Char}
    (h : nextAttr? ready (p ++ H) = some (a, ready', next)) (hn : H.length < next.length) :
    ∃ q, q ≠ [] ∧ q.length < p.length ∧ ∀ R, nextAttr? ready (p ++ R) = some (a, ready', q ++ R) := by
  have hless := length_lt_of_nextAttr? h
  cases p with
  | nil =>
    rw [List.nil_append] at hless
    omega
  | cons c p =>
    rw [List.cons_append, nextAttr?] at h
    split at h
    · cases h
    · rename_i hc
      simp only [Option.some.injEq, Prod.mk.injEq] at h
      obtain ⟨rfl, hready, rfl⟩ := h
      have hlength := (valueAfter_suffix (c :: (p ++ H).takeWhile isAttrNameChar) ((p ++ H).dropWhile isAttrNameChar)).length_le
      obtain ⟨-, hname⟩ := run_local (p := p) (H := H) (f := isAttrNameChar) (by omega)
      rw [(hname H).1, (hname H).2] at hn hready hless ⊢
      obtain ⟨v, quoted, q, hq, hvalue⟩ := valueAfter_local hH hn
      rw [hvalue H] at hn hready hless ⊢
      have hsign : H.head? ≠ some '>' := by
        rw [hH.sign]
        simp
      obtain ⟨q', hq', hgap⟩ := skipGap_local hsign hn
      rw [hgap H] at hready hless
      refine ⟨q', hq', ?_, fun R => ?_⟩
      · simp only [List.length_append, List.length_cons] at hless ⊢
        omega
      · rw [List.cons_append, nextAttr?, if_neg hc]
        simp only [(hname R).1, (hname R).2, hvalue R, hgap R, ← hready, List.length_append,
          Nat.add_lt_add_iff_right]

/-- No attribute begins at a character, whatever follows. -/
theorem nextAttr?_none_local {ready : Bool} (hp : p ≠ []) (h : nextAttr? ready (p ++ H) = none) :
    ∀ R, nextAttr? ready (p ++ R) = none := by
  obtain ⟨c, p, rfl⟩ := List.exists_cons_of_ne_nil hp
  intro R
  simp only [List.cons_append, nextAttr?] at h ⊢
  split at h
  · rename_i hc
    rw [if_pos hc]
  · cases h

/-- Attributes before a hole are the same whatever stands there. -/
theorem attrsOf_local (hH : IsHole H) {ready : Bool} (h : H.length < (attrsOf ready (p ++ H)).2.length) :
    ∃ as q, q ≠ [] ∧ ∀ R, attrsOf ready (p ++ R) = (as, q ++ R) := by
  induction hn : p.length using Nat.strongRecOn generalizing p ready with
  | _ n ih =>
    subst hn
    cases hnext : nextAttr? ready (p ++ H) with
    | none =>
      rw [attrsOf_none hnext, List.length_append] at h
      have hp : p ≠ [] := by
        rintro rfl
        simp at h
      exact ⟨[], p, hp, fun R => attrsOf_none (nextAttr?_none_local hp hnext R)⟩
    | some x =>
      obtain ⟨a, ready', next⟩ := x
      rw [attrsOf_some hnext] at h
      have hleft : (attrsOf ready' next).2 <:+ next := (takeAttrs_pieces _ _ _).1
      have hle := hleft.length_le
      obtain ⟨q, -, hless, hR⟩ := nextAttr?_local hH hnext (by simp only at h; omega)
      have hq := hR H
      rw [hnext] at hq
      obtain rfl : next = q ++ H := by simpa using hq
      obtain ⟨as, q', hq', hR'⟩ := ih q.length hless h rfl
      exact ⟨a :: as, q', hq', fun R => by rw [attrsOf_some (hR R), hR']⟩

/-! ### Start tags -/

/-- What follows the name of a tag, but for the gap behind it. -/
def tagGap (cs : List Char) : List Char := skipGap (cs.dropWhile isTagNameChar)

/-- Whether an attribute may follow the name of a tag. -/
def tagReady (cs : List Char) : Bool :=
  (tagGap cs).length < (cs.dropWhile isTagNameChar).length ||
    ((cs.takeWhile isTagNameChar).getLast?.any fun c => isQuote c || Text.isBlank c)

/-- An attribute as a token holds it. -/
def readAttr (a : List Char × List Char) : Except Fault (String × String) :=
  match decodeValue a.2 with
  | .ok v => .ok (String.ofList (Text.lowered a.1), String.ofList v)
  | .error f => .error (.numeral f)

/-- What a tag is, given its attributes and what is left behind them. -/
def tagEnd (cs : List Char) (attrs : List (List Char × List Char)) (left : List Char) : Except Fault Construct :=
  let tag (closed : Bool) (rest : List Char) : Except Fault Construct :=
    (attrs.mapM readAttr).map fun as =>
      .whole [.startTag (String.ofList (Text.lowered (cs.takeWhile isTagNameChar))) as closed] rest
  match left with
  | [] => .ok .incomplete
  | '>' :: rest => tag false rest
  | '/' :: rest => tag true (rest.drop 1)
  | c :: _ =>
    if Text.isAsciiLetter c || c == '=' then .ok .incomplete
    else .ok (.whole [.text ('<' :: before cs left)] left)

theorem startTag_eq (cs : List Char) :
    startTag cs = tagEnd cs (attrsOf (tagReady cs) (tagGap cs)).1 (attrsOf (tagReady cs) (tagGap cs)).2 := by
  rw [startTag, tagEnd.eq_def]
  simp only [drop_length_takeWhile]
  rfl

/-- No tag is read where an attribute should begin and another character stands. -/
theorem tagEnd_other {cs left : List Char} {as : List (List Char × List Char)} {c : Char} (hgt : c ≠ '>')
    (hslash : c ≠ '/') :
    tagEnd cs as (c :: left) =
      if Text.isAsciiLetter c || c == '=' then .ok .incomplete
      else .ok (.whole [.text ('<' :: before cs (c :: left))] (c :: left)) := by
  rw [tagEnd.eq_def]
  split
  · rename_i he
    cases he
  · rename_i he
    exact absurd (List.cons.inj he).1 hgt
  · rename_i he
    exact absurd (List.cons.inj he).1 hslash
  · rename_i he
    obtain ⟨rfl, rfl⟩ := List.cons.inj he
    rfl

/-- What stands before a tail does not depend on the tail. -/
theorem before_append {cs q : List Char} (h : q.length ≤ cs.length) (R : List Char) :
    before (cs ++ R) (q ++ R) = cs.take (cs.length - q.length) := by
  have hn : (cs ++ R).length - (q ++ R).length = cs.length - q.length := by
    simp only [List.length_append]
    omega
  rw [before, hn, List.take_append_of_le_length (by omega)]

/-- A tag that ends before a hole is the same whatever stands there. -/
theorem tagEnd_local {as : List (List Char × List Char)} {q : List Char} {ts : List Token} {rest : List Char}
    (hq : q ≠ []) (hqp : q.length ≤ p.length)
    (hname : ∀ R, (p ++ R).takeWhile isTagNameChar = p.takeWhile isTagNameChar)
    (h : tagEnd (p ++ H) as (q ++ H) = .ok (.whole ts rest)) (hr : H.length < rest.length) :
    ∃ q', q' ≠ [] ∧ ∀ R, tagEnd (p ++ R) as (q ++ R) = .ok (.whole ts (q' ++ R)) := by
  obtain ⟨c, q, rfl⟩ := List.exists_cons_of_ne_nil hq
  have hwhole {closed : Bool} {rest' : List Char} (h : ((as.mapM readAttr).map fun attrs =>
      Construct.whole [.startTag (String.ofList (Text.lowered (p.takeWhile isTagNameChar))) attrs closed] rest') =
        .ok (.whole ts rest)) :
      rest = rest' ∧ ∀ r, ((as.mapM readAttr).map fun attrs =>
        Construct.whole [.startTag (String.ofList (Text.lowered (p.takeWhile isTagNameChar))) attrs closed] r) =
          .ok (.whole ts r) := by
    cases hm : as.mapM readAttr with
    | error f =>
      rw [hm] at h
      cases h
    | ok attrs =>
      rw [hm] at h
      obtain ⟨rfl, rfl⟩ := Construct.whole.inj (Except.ok.inj h)
      exact ⟨rfl, fun r => rfl⟩
  have hne {q' : List Char} (he : rest = q' ++ H) : q' ≠ [] := by
    rintro rfl
    rw [he] at hr
    simp at hr
  by_cases hgt : c = '>'
  · subst hgt
    simp only [tagEnd, List.cons_append, hname] at h ⊢
    obtain ⟨he, hR⟩ := hwhole h
    exact ⟨q, hne he, fun R => hR _⟩
  · by_cases hslash : c = '/'
    · subst hslash
      simp only [tagEnd, List.cons_append, hname] at h ⊢
      obtain ⟨he, hR⟩ := hwhole h
      have hq' : q ≠ [] := by
        rintro rfl
        have := (List.drop_suffix 1 H).length_le
        rw [he, List.nil_append] at hr
        omega
      obtain ⟨d, q, rfl⟩ := List.exists_cons_of_ne_nil hq'
      exact ⟨q, hne he, fun R => hR _⟩
    · rw [List.cons_append, tagEnd_other hgt hslash, ← List.cons_append, before_append hqp] at h
      split at h
      · cases h
      · rename_i hc
        obtain ⟨rfl, rfl⟩ := Construct.whole.inj (Except.ok.inj h)
        refine ⟨c :: q, List.cons_ne_nil _ _, fun R => ?_⟩
        rw [List.cons_append, tagEnd_other hgt hslash, if_neg hc, ← List.cons_append, before_append hqp]

theorem tagEnd_suffix {cs left rest : List Char} {as : List (List Char × List Char)} {ts : List Token}
    (h : tagEnd cs as left = .ok (.whole ts rest)) : rest <:+ left := by
  have hwhole {closed : Bool} {r : List Char} (h : ((as.mapM readAttr).map fun attrs =>
      Construct.whole [.startTag (String.ofList (Text.lowered (cs.takeWhile isTagNameChar))) attrs closed] r) =
        .ok (.whole ts rest)) : r = rest := by
    cases hm : as.mapM readAttr with
    | error f =>
      rw [hm] at h
      cases h
    | ok attrs =>
      rw [hm] at h
      exact (Construct.whole.inj (Except.ok.inj h)).2
  rw [tagEnd.eq_def] at h
  dsimp only at h
  split at h
  · cases h
  · obtain rfl := hwhole h
    exact List.suffix_cons ..
  · obtain rfl := hwhole h
    exact (List.drop_suffix ..).trans (List.suffix_cons ..)
  · split at h
    · cases h
    · obtain ⟨-, rfl⟩ := Construct.whole.inj (Except.ok.inj h)
      exact List.suffix_rfl

/-- What follows the name of a tag is the same before a hole. -/
theorem tagGap_local (hH : IsHole H) (h : H.length < (tagGap (p ++ H)).length) :
    ∃ q, q ≠ [] ∧ q.length ≤ p.length ∧ ∀ R, tagGap (p ++ R) = q ++ R ∧ tagReady (p ++ R) = tagReady (p ++ H) ∧
      (p ++ R).takeWhile isTagNameChar = p.takeWhile isTagNameChar := by
  have hsign : H.head? ≠ some '>' := by
    rw [hH.sign]
    simp
  have hgap : tagGap (p ++ H) <:+ (p ++ H).dropWhile isTagNameChar := skipGap_suffix _
  have hle := hgap.length_le
  have hshort := (hgap.trans (List.dropWhile_suffix _)).length_le
  obtain ⟨-, hname⟩ := run_local (p := p) (H := H) (f := isTagNameChar) (by omega)
  have hlong : H.length < (skipGap (p.dropWhile isTagNameChar ++ H)).length := by
    rw [← (hname H).1]
    exact h
  obtain ⟨q, hq, hskip⟩ := skipGap_local hsign hlong
  have htagGap (R : List Char) : tagGap (p ++ R) = q ++ R := by rw [tagGap, (hname R).1, hskip]
  refine ⟨q, hq, ?_, fun R => ⟨htagGap R, ?_, (hname R).2⟩⟩
  · rw [htagGap] at hshort
    simp only [List.length_append] at hshort
    omega
  · rw [tagReady, tagReady, htagGap, htagGap, (hname R).1, (hname H).1, (hname R).2, (hname H).2]
    simp only [List.length_append, Nat.add_lt_add_iff_right]

/-- A tag that ends before a hole is the same whatever stands there. -/
theorem startTag_local (hH : IsHole H) {ts : List Token} {rest : List Char}
    (h : startTag (p ++ H) = .ok (.whole ts rest)) (hr : H.length < rest.length) :
    ∃ q, q ≠ [] ∧ ∀ R, startTag (p ++ R) = .ok (.whole ts (q ++ R)) := by
  rw [startTag_eq] at h
  have hrest := (tagEnd_suffix h).length_le
  have hleft : (attrsOf (tagReady (p ++ H)) (tagGap (p ++ H))).2.length ≤ (tagGap (p ++ H)).length :=
    ((takeAttrs_pieces _ _ _).1).length_le
  obtain ⟨q, -, hqp, hR⟩ := tagGap_local (p := p) hH (by omega)
  rw [(hR H).1] at h hrest hleft
  obtain ⟨as, q', hq', hattrs⟩ := attrsOf_local hH (Nat.lt_of_lt_of_le hr hrest)
  have hshort : q'.length ≤ p.length := by
    rw [hattrs] at hleft
    simp only [List.length_append] at hleft
    omega
  rw [hattrs] at h
  obtain ⟨q'', hq'', hend⟩ := tagEnd_local hq' hshort (fun R => (hR R).2.2) h hr
  exact ⟨q'', hq'', fun R => by rw [startTag_eq, (hR R).2.1, (hR R).1, hattrs, hend]⟩

end Markup
end PageComposer
