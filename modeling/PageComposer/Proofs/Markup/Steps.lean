/-
# What a step depends on

A step of the first pass looks one character beyond what it takes, and further only for the end of a construct or for
a quote that is not closed. So a step that ends before a hole takes the same whatever stands there
(`nextStep_local`).

| step at | goes on where |
| --- | --- |
| `<` | a construct is whole, or none begins (`tagStep_go`) |
| `&` | a reference has an end that shows what it is, or none begins (`referenceStep_go`) |
| another character | always (`step_other`) |
| raw content | its end stands (`rawStep_eq`) |
-/

import PageComposer.Proofs.Markup.Literals
import PageComposer.Proofs.Markup.Passes

namespace PageComposer
namespace Markup

deriving instance DecidableEq for Construct, Step

variable {p H : List Char}

/-! ### Character references -/

theorem takeSemicolon_local {rest : List Char} (hp : p ≠ []) (h : (takeSemicolon (p ++ H)).2 = rest)
    (hr : H.length < rest.length) : ∃ q, q ≠ [] ∧ ∀ R, (takeSemicolon (p ++ R)).2 = q ++ R := by
  obtain ⟨c, p, rfl⟩ := List.exists_cons_of_ne_nil hp
  by_cases hc : c = ';'
  · subst hc
    refine ⟨p, ?_, fun R => rfl⟩
    rintro rfl
    obtain rfl : H = rest := h
    omega
  · refine ⟨c :: p, List.cons_ne_nil _ _, fun R => ?_⟩
    rw [List.cons_append, takeSemicolon.eq_2]
    simpa using fun he => absurd he hc

/-- A run, the character behind it, and a semicolon if that is one, before a hole. -/
theorem run_semicolon_local {f : Char → Bool} {c : Char} {tail : List Char} (hd : (p ++ H).dropWhile f = c :: tail)
    (hr : H.length < (takeSemicolon (c :: tail)).2.length) :
    ∃ tail' q, q ≠ [] ∧ ∀ R, (p ++ R).dropWhile f = c :: (tail' ++ R) ∧
      (p ++ R).takeWhile f = (p ++ H).takeWhile f ∧ (takeSemicolon (c :: (tail' ++ R))).2 = q ++ R := by
  have hle := (takeSemicolon_suffix (c :: tail)).length_le
  obtain ⟨hne, hR⟩ := run_local (p := p) (H := H) (f := f) (by rw [hd]; omega)
  obtain ⟨d, tail', htail⟩ := List.exists_cons_of_ne_nil hne
  rw [(hR H).1, htail, List.cons_append] at hd
  obtain ⟨rfl, rfl⟩ := List.cons.inj hd
  obtain ⟨q, hq, hR'⟩ := takeSemicolon_local (p := d :: tail') (List.cons_ne_nil _ _) rfl hr
  exact ⟨tail', q, hq, fun R => ⟨by rw [(hR R).1, htail]; rfl, by rw [(hR R).2, (hR H).2], hR' R⟩⟩

/-- A reference that ends before a hole is the same whatever stands there. -/
theorem textReference?_local (hH : IsHole H) {s rest : List Char}
    (h : textReference? (p ++ H) = .ok (some (s, rest))) (hr : H.length < rest.length) :
    ∃ q, q ≠ [] ∧ ∀ R, textReference? (p ++ R) = .ok (some (s, q ++ R)) := by
  obtain ⟨X, rfl⟩ := hH.eq_cons
  cases p with
  | nil => cases h
  | cons c p =>
    by_cases hnumber : c = '#'
    · subst hnumber
      simp only [List.cons_append, textReference?, drop_length_takeWhile] at h ⊢
      split at h
      · rename_i hds
        split at h
        · cases h
        · rename_i d tail hd
          split at h
          · cases h
          · rename_i hhex
            split at h
            · rename_i n hn
              obtain ⟨rfl, rfl⟩ : [numbered n] = s ∧ (takeSemicolon (d :: tail)).2 = rest := by simpa using h
              obtain ⟨tail', q, hq, hR⟩ := run_semicolon_local hd hr
              refine ⟨q, hq, fun R => ?_⟩
              obtain ⟨hdrop, htake, hsemicolon⟩ := hR R
              simp only [hdrop, htake, hsemicolon, if_pos hds, if_neg hhex, hn]
            · cases h
      · rename_i hds
        cases p with
        | nil =>
          -- the character behind the number sign would be that of the hole
          simp only [List.nil_append] at h
          split at h
          · cases h
          · cases h
        | cons x p =>
          simp only [List.cons_append] at h hds ⊢
          split at h
          · cases h
          · rename_i d tail hd
            split at h
            · rename_i hx
              obtain ⟨rfl, rfl⟩ : [numbered (hexNumber ((p ++ '=' :: X).takeWhile Text.isHexDigit))] = s ∧
                (takeSemicolon (d :: tail)).2 = rest := by simpa using h
              obtain ⟨tail', q, hq, hR⟩ := run_semicolon_local hd hr
              refine ⟨q, hq, fun R => ?_⟩
              obtain ⟨hdrop, htake, hsemicolon⟩ := hR R
              have hdigit : Text.isAsciiDigit x = false := by simpa using hds
              simp only [List.takeWhile_cons, hdigit, hdrop, htake, hsemicolon, if_pos hx]
              rfl
            · cases h
    · simp only [List.cons_append, textReference?, drop_length_takeWhile] at h ⊢
      split at h
      · rename_i hletter
        split at h
        · rename_i d tail hd
          obtain ⟨rfl, rfl⟩ : _ = s ∧ (takeSemicolon (d :: tail)).2 = rest := by simpa using h
          obtain ⟨tail', q, hq, hR⟩ := run_semicolon_local (p := c :: p) hd hr
          refine ⟨q, hq, fun R => ?_⟩
          obtain ⟨hdrop, htake, hsemicolon⟩ := hR R
          simp only [List.cons_append] at hdrop htake
          simp only [if_pos hletter, hdrop, htake, hsemicolon]
        · rename_i hd
          have hsign := List.dropWhile_eq_nil_iff.1 hd '=' (by simp)
          exact absurd hsign (by decide)
      · cases h

/-! ### Steps -/

/-- The construct that begins with `<`, if one does; `cs` follows it. -/
def constructAt? (cs : List Char) : Except Fault (Option Construct) :=
  match cs with
  | '/' :: rest => .ok (some (endTag rest))
  | '?' :: rest => .ok (some (upTo afterAngle? .instruction rest))
  | '!' :: rest => some <$> declaration rest
  | c :: _ => if Text.isAsciiLetter c then some <$> startTag cs else .ok none
  | [] => .ok none

theorem constructAt?_other {c : Char} (cs : List Char) (hslash : c ≠ '/') (hquestion : c ≠ '?') (hmark : c ≠ '!') :
    constructAt? (c :: cs) = if Text.isAsciiLetter c then some <$> startTag (c :: cs) else .ok none :=
  constructAt?.eq_4 c cs hslash hquestion hmark

/-- How a first pass goes on at a construct; `cs` follows `<`. -/
def goOn (cs : List Char) : Option Construct → Step
  | some (.whole tokens rest) => .go tokens (opensRaw tokens) rest
  | some .incomplete => .stop [] ('<' :: cs)
  | none => if cs.isEmpty then .stop [] ['<'] else .go [.text ['<']] none cs

theorem tagStep_first (cs : List Char) : tagStep false cs = (constructAt? cs).map (goOn cs) := by
  have hgo (r : Except Fault (Option Construct)) :
      (do match ← r with
        | some (.whole tokens rest) => pure (.go tokens (opensRaw tokens) rest)
        | some .incomplete => pure (.stop [] ('<' :: cs))
        | none => if cs.isEmpty then pure (.stop [] ['<']) else pure (.go [.text ['<']] none cs) :
        Except Fault Step) = r.map (goOn cs) := by
    cases r with
    | error f => rfl
    | ok construct =>
      rcases construct with _ | ⟨_, _⟩ | _
      · simp only [goOn, bind, Except.bind, Except.map]
        split <;> rfl
      · rfl
      · rfl
  unfold tagStep
  simp only [Bool.false_eq_true, if_false]
  split
  · exact hgo (.ok (some (endTag _)))
  · exact hgo (.ok (some (upTo afterAngle? .instruction _)))
  · exact hgo (some <$> declaration _)
  · rename_i c cs hslash hquestion hmark
    rw [constructAt?_other cs hslash hquestion hmark]
    split
    · exact hgo (some <$> startTag _)
    · exact hgo (.ok none)
  · exact hgo (.ok none)

/-- A construct that ends before a hole is the same whatever stands there. -/
theorem constructAt?_local (hH : IsHole H) {ts : List Token} {rest : List Char}
    (h : constructAt? (p ++ H) = .ok (some (.whole ts rest))) (hr : H.length < rest.length) :
    ∃ q, q ≠ [] ∧ ∀ R, constructAt? (p ++ R) = .ok (some (.whole ts (q ++ R))) := by
  have hsome {r : Except Fault Construct} {construct : Construct} :
      (some <$> r : Except Fault (Option Construct)) = .ok (some construct) ↔ r = .ok construct := by
    cases r <;> simp [Functor.map, Except.map]
  cases p with
  | nil =>
    obtain ⟨X, rfl⟩ := hH.eq_cons
    cases h
  | cons c p =>
    simp only [List.cons_append] at h ⊢
    unfold constructAt? at h
    split at h
    · rename_i X he
      obtain ⟨rfl, rfl⟩ := List.cons.inj he
      obtain ⟨q, hq, hR⟩ := endTag_local (Option.some.inj (Except.ok.inj h)) hr
      exact ⟨q, hq, fun R => by rw [constructAt?, hR]⟩
    · rename_i X he
      obtain ⟨rfl, rfl⟩ := List.cons.inj he
      obtain ⟨-, q, hq, hR⟩ := upTo_local isEnd_afterAngle? (Option.some.inj (Except.ok.inj h)) hr
      exact ⟨q, hq, fun R => by rw [constructAt?, hR]⟩
    · rename_i X he
      obtain ⟨rfl, rfl⟩ := List.cons.inj he
      obtain ⟨q, hq, hR⟩ := declaration_local hH (hsome.1 h) hr
      exact ⟨q, hq, fun R => hsome.2 (hR R)⟩
    · rename_i d X hslash hquestion hmark he
      obtain ⟨rfl, rfl⟩ := List.cons.inj he
      split at h
      · rename_i hletter
        obtain ⟨q, hq, hR⟩ := startTag_local (p := c :: p) hH (hsome.1 h) hr
        refine ⟨q, hq, fun R => ?_⟩
        rw [constructAt?_other _ hslash hquestion hmark, if_pos hletter]
        exact hsome.2 (hR R)
      · cases h
    · rename_i he
      cases he

/-- Whether a construct begins is told by the first character. -/
theorem constructAt?_none_local (hp : p ≠ []) (h : constructAt? (p ++ H) = .ok none) (R : List Char) :
    constructAt? (p ++ R) = .ok none := by
  obtain ⟨c, p, rfl⟩ := List.exists_cons_of_ne_nil hp
  have hsome {r : Except Fault Construct} : (some <$> r : Except Fault (Option Construct)) ≠ .ok none := by
    cases r <;> simp [Functor.map, Except.map]
  rw [List.cons_append] at h ⊢
  by_cases hslash : c = '/'
  · subst hslash
    cases h
  by_cases hquestion : c = '?'
  · subst hquestion
    cases h
  by_cases hmark : c = '!'
  · subst hmark
    exact absurd h hsome
  rw [constructAt?_other _ hslash hquestion hmark] at h ⊢
  split at h
  · exact absurd h hsome
  · rename_i hletter
    rw [if_neg hletter]

/-- What an end of raw content is, given what stands before it, its own text and what is left. -/
def rawEnd (name : String) (s close rest : List Char) : Step :=
  let data := if s.isEmpty then [] else [Token.text s]
  match plainEndName? (close.drop 2).dropLast with
  | some n => .go (data ++ [.endTag (String.ofList (Text.lowered n))]) none rest
  | none => .go (data ++ [.text close]) (some name) rest

theorem rawStep_eq (name : String) (cs : List Char) :
    rawStep name cs = match splitBefore? (afterRawEnd? name.toList) cs with
      | none => .stop [] cs
      | some (s, rest) => rawEnd name s (before (cs.drop s.length) rest) rest := rfl

theorem rawEnd_go {name : String} {s close rest : List Char} {ts : List Token} {raw' : Option String} {r : List Char}
    (h : rawEnd name s close rest = .go ts raw' r) :
    r = rest ∧ (∀ n ∈ raw', n = name) ∧ ∀ rest, rawEnd name s close rest = .go ts raw' rest := by
  unfold rawEnd at h ⊢
  dsimp only at h ⊢
  split at h
  · obtain ⟨rfl, rfl, rfl⟩ := Step.go.inj h
    exact ⟨rfl, by simp, fun _ => rfl⟩
  · obtain ⟨rfl, rfl, rfl⟩ := Step.go.inj h
    exact ⟨rfl, by simp, fun _ => rfl⟩

/-- The end is what stands behind the text before it. -/
theorem splitBefore?_drop {close : List Char → Option (List Char)} {cs s rest : List Char}
    (h : splitBefore? close cs = some (s, rest)) : close (cs.drop s.length) = some rest := by
  induction cs generalizing s with
  | nil =>
    obtain ⟨r, hr, he⟩ := Option.map_eq_some_iff.1 h
    obtain ⟨rfl, rfl⟩ := Prod.mk.inj he
    exact hr
  | cons c cs ih =>
    unfold splitBefore? at h
    split at h
    · rename_i r hr
      obtain ⟨rfl, rfl⟩ : [] = s ∧ r = rest := by simpa using h
      exact hr
    · obtain ⟨⟨s', r⟩, hs, he⟩ := Option.map_eq_some_iff.1 h
      obtain ⟨rfl, rfl⟩ := Prod.mk.inj he
      exact ih hs

/-- Raw content that ends before a hole is the same whatever stands there. -/
theorem rawStep_local {name : String} (hname : name ∈ rawElements) {ts : List Token} {raw' : Option String}
    {rest : List Char} (h : rawStep name (p ++ H) = .go ts raw' rest) (hr : H.length < rest.length) :
    ∃ q, q ≠ [] ∧ ∀ R, rawStep name (p ++ R) = .go ts raw' (q ++ R) := by
  rw [rawStep_eq] at h
  split at h
  · cases h
  · rename_i s r hs
    obtain ⟨rfl, -, hgo⟩ := rawEnd_go h
    obtain ⟨q, hq, hR⟩ := splitBefore?_local (isEnd_afterRawEnd? hname) hs hr
    have hnil := hR []
    rw [List.append_nil, List.append_nil] at hnil
    obtain ⟨taken, htaken⟩ := (isEnd_afterRawEnd? hname).ends (splitBefore?_drop hnil)
    have hlength := congrArg List.length htaken
    rw [List.length_drop, List.length_append, List.length_cons] at hlength
    have hbefore (R : List Char) : before ((p ++ R).drop s.length) (q ++ R) = before (p.drop s.length) q := by
      rw [List.drop_append_of_le_length (by omega), before_append (by rw [List.length_drop]; omega), before]
    rw [hR H, Option.some.injEq, Prod.mk.injEq] at hs
    refine ⟨q, hq, fun R => ?_⟩
    rw [rawStep_eq, hR R]
    dsimp only
    rw [hbefore, ← hbefore H, hs.2]
    exact hgo _

/-- The name of an element with raw content, if one is open, is one of those that have it. -/
def RawMode (raw : Option String) : Prop := ∀ name ∈ raw, name ∈ rawElements

theorem rawMode_opensRaw (ts : List Token) : RawMode (opensRaw ts) := by
  intro name h
  unfold opensRaw at h
  split at h
  · split at h
    · rename_i hraw
      obtain rfl := Option.some.inj h
      simpa using hraw
    · cases h
  · cases h

theorem nextStep_none (last : Bool) (cs : List Char) : nextStep last none cs = step last cs := rfl

theorem nextStep_some (last : Bool) (name : String) (cs : List Char) :
    nextStep last (some name) cs = .ok (rawStep name cs) := rfl

theorem goOn_go {cs : List Char} {construct : Option Construct} {ts : List Token} {raw' : Option String}
    {rest : List Char} (h : goOn cs construct = .go ts raw' rest) :
    (construct = some (.whole ts rest) ∧ raw' = opensRaw ts) ∨
      construct = none ∧ cs ≠ [] ∧ ts = [.text ['<']] ∧ raw' = none ∧ rest = cs := by
  unfold goOn at h
  split at h
  · obtain ⟨rfl, rfl, rfl⟩ := Step.go.inj h
    exact .inl ⟨rfl, rfl⟩
  · cases h
  · split at h
    · cases h
    · rename_i hne
      obtain ⟨rfl, rfl, rfl⟩ := Step.go.inj h
      exact .inr ⟨rfl, by simpa using hne, rfl, rfl, rfl⟩

/-- A construct or a lone `<`. -/
theorem tagStep_go {cs : List Char} {ts : List Token} {raw' : Option String} {rest : List Char} :
    tagStep false cs = .ok (.go ts raw' rest) ↔
      (constructAt? cs = .ok (some (.whole ts rest)) ∧ raw' = opensRaw ts) ∨
        constructAt? cs = .ok none ∧ cs ≠ [] ∧ ts = [.text ['<']] ∧ raw' = none ∧ rest = cs := by
  rw [tagStep_first]
  constructor
  · intro h
    cases hc : constructAt? cs with
    | error f =>
      rw [hc] at h
      cases h
    | ok construct =>
      rw [hc] at h
      rcases goOn_go (Except.ok.inj h) with ⟨rfl, hraw⟩ | ⟨rfl, hrest⟩
      · exact .inl ⟨rfl, hraw⟩
      · exact .inr ⟨rfl, hrest⟩
  · rintro (⟨hc, rfl⟩ | ⟨hc, hne, rfl, rfl, rfl⟩)
    · rw [hc]
      rfl
    · rw [hc]
      exact congrArg Except.ok (if_neg (by simpa using hne))

theorem tagStep_local (hH : IsHole H) {ts : List Token} {raw' : Option String} {rest : List Char}
    (h : tagStep false (p ++ H) = .ok (.go ts raw' rest)) (hr : H.length < rest.length) :
    ∃ q, q ≠ [] ∧ ∀ R, tagStep false (p ++ R) = .ok (.go ts raw' (q ++ R)) := by
  rcases tagStep_go.1 h with ⟨hc, rfl⟩ | ⟨hc, -, rfl, rfl, rfl⟩
  · obtain ⟨q, hq, hR⟩ := constructAt?_local hH hc hr
    exact ⟨q, hq, fun R => tagStep_go.2 (.inl ⟨hR R, rfl⟩)⟩
  · have hp : p ≠ [] := by
      rintro rfl
      simp at hr
    exact ⟨p, hp, fun R => tagStep_go.2 (.inr ⟨constructAt?_none_local hp hc R, by simp [hp], rfl, rfl, rfl⟩)⟩

theorem textReference?_other {c : Char} (cs : List Char) (hnumber : c ≠ '#') (hletter : Text.isAsciiLetter c = false) :
    textReference? (c :: cs) = .ok none := by
  unfold textReference?
  split
  · rename_i he
    exact absurd (List.cons.inj he).1 hnumber
  · rename_i he
    obtain ⟨rfl, rfl⟩ := List.cons.inj he
    rw [if_neg (by simp [hletter])]
  · rfl

/-- A reference or a lone `&`. -/
theorem referenceStep_go {cs : List Char} {ts : List Token} {raw' : Option String} {rest : List Char} :
    referenceStep false cs = .ok (.go ts raw' rest) ↔
      (∃ s, textReference? cs = .ok (some (s, rest)) ∧ ts = [.text s] ∧ raw' = none) ∨
        (∃ c, cs.head? = some c ∧ c ≠ '#' ∧ Text.isAsciiLetter c = false) ∧ ts = [.text ['&']] ∧ raw' = none ∧
          rest = cs := by
  unfold referenceStep
  constructor
  · intro h
    cases hc : textReference? cs with
    | error f =>
      rw [hc] at h
      cases h
    | ok r =>
      rw [hc] at h
      cases r with
      | some r =>
        obtain ⟨rfl, rfl, rfl⟩ := Step.go.inj (Except.ok.inj h)
        exact .inl ⟨r.1, rfl, rfl, rfl⟩
      | none =>
        refine .inr ?_
        simp only [bind, Except.bind, Bool.false_and, Bool.false_eq_true, if_false] at h
        split at h
        · cases h
        · split at h <;> cases h
        · rename_i c cs hnumber
          split at h
          · cases h
          · rename_i hletter
            obtain ⟨rfl, rfl, rfl⟩ := Step.go.inj (Except.ok.inj h)
            exact ⟨⟨c, rfl, hnumber, by simpa using hletter⟩, rfl, rfl, rfl⟩
  · rintro (⟨s, hs, rfl, rfl⟩ | ⟨⟨c, hc, hnumber, hletter⟩, rfl, rfl, rfl⟩)
    · rw [hs]
      rfl
    · obtain ⟨cs, rfl⟩ := List.head?_eq_some_iff.1 hc
      rw [textReference?_other cs hnumber hletter]
      simp [bind, Except.bind, hletter]
      rfl

theorem referenceStep_local (hH : IsHole H) {ts : List Token} {raw' : Option String} {rest : List Char}
    (h : referenceStep false (p ++ H) = .ok (.go ts raw' rest)) (hr : H.length < rest.length) :
    ∃ q, q ≠ [] ∧ ∀ R, referenceStep false (p ++ R) = .ok (.go ts raw' (q ++ R)) := by
  rcases referenceStep_go.1 h with ⟨s, hs, rfl, rfl⟩ | ⟨⟨c, hc, hother⟩, rfl, rfl, rfl⟩
  · obtain ⟨q, hq, hR⟩ := textReference?_local hH hs hr
    exact ⟨q, hq, fun R => referenceStep_go.2 (.inl ⟨s, hR R, rfl, rfl⟩)⟩
  · have hp : p ≠ [] := by
      rintro rfl
      simp at hr
    refine ⟨p, hp, fun R => referenceStep_go.2 (.inr ⟨⟨c, ?_, hother⟩, rfl, rfl, rfl⟩)⟩
    obtain ⟨d, p, rfl⟩ := List.exists_cons_of_ne_nil hp
    exact hc

theorem step_other {c : Char} (cs : List Char) (hangle : c ≠ '<') (hamp : c ≠ '&') :
    step false (c :: cs) = .ok (.go [.text ((c :: cs).takeWhile fun c => !(c == '<' || c == '&'))] none
      ((c :: cs).dropWhile fun c => !(c == '<' || c == '&'))) := by
  rw [step.eq_3 false (c :: cs) (fun _ he => hangle (List.cons.inj he).1) fun _ he => hamp (List.cons.inj he).1]
  simp only [drop_length_takeWhile]

/-- **A step that ends before a hole is the same whatever stands there.** -/
theorem nextStep_local (hH : IsHole H) {raw : Option String} (hraw : RawMode raw) {ts : List Token}
    {raw' : Option String} {rest : List Char} (h : nextStep false raw (p ++ H) = .ok (.go ts raw' rest))
    (hr : H.length < rest.length) :
    ∃ q, q ≠ [] ∧ ∀ R, nextStep false raw (p ++ R) = .ok (.go ts raw' (q ++ R)) := by
  cases raw with
  | some name =>
    obtain ⟨q, hq, hR⟩ := rawStep_local (hraw name rfl) (Except.ok.inj h) hr
    exact ⟨q, hq, fun R => congrArg Except.ok (hR R)⟩
  | none =>
    have hleaves := leaves_of_nextStep h
    simp only [nextStep_none] at h ⊢
    cases p with
    | nil =>
      have hle := hleaves.length_le
      rw [List.nil_append, List.length_tail] at hle
      omega
    | cons c p =>
      by_cases hangle : c = '<'
      · subst hangle
        exact tagStep_local hH h hr
      by_cases hamp : c = '&'
      · subst hamp
        exact referenceStep_local hH h hr
      rw [List.cons_append, step_other _ hangle hamp, ← List.cons_append] at h
      obtain ⟨rfl, rfl, rfl⟩ := Step.go.inj (Except.ok.inj h)
      obtain ⟨hne, hR⟩ := run_local hr
      refine ⟨_, hne, fun R => ?_⟩
      rw [List.cons_append, step_other _ hangle hamp, ← List.cons_append, (hR R).1, (hR R).2, (hR H).2]

/-- A step leaves a mode that is one. -/
theorem rawMode_of_nextStep {raw raw' : Option String} (hraw : RawMode raw) {cs rest : List Char} {ts : List Token}
    (h : nextStep false raw cs = .ok (.go ts raw' rest)) : RawMode raw' := by
  cases raw with
  | some name =>
    have h := Except.ok.inj h
    rw [rawStep_eq] at h
    split at h
    · cases h
    · intro n hn
      rw [(rawEnd_go h).2.1 n hn]
      exact hraw name rfl
  | none =>
    have hnone : RawMode none := nofun
    cases cs with
    | nil =>
      obtain ⟨-, rfl, -⟩ := Step.go.inj (Except.ok.inj h)
      exact hnone
    | cons c cs =>
      rw [nextStep_none] at h
      by_cases hangle : c = '<'
      · subst hangle
        rcases tagStep_go.1 h with ⟨-, rfl⟩ | ⟨-, -, -, rfl, -⟩
        · exact rawMode_opensRaw ts
        · exact hnone
      by_cases hamp : c = '&'
      · subst hamp
        rcases referenceStep_go.1 h with ⟨_, -, -, rfl⟩ | ⟨-, -, rfl, -⟩ <;> exact hnone
      rw [step_other _ hangle hamp] at h
      obtain ⟨-, rfl, -⟩ := Step.go.inj (Except.ok.inj h)
      exact hnone

end Markup
end PageComposer
