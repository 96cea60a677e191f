/-
# What a literal construct depends on

A literal construct is read up to its end, and an end is a `>` with what must stand before it (`IsEnd`). So a
construct that ends before a hole is the same whatever stands there.

| construct | ends with | the same before a hole |
| --- | --- | --- |
| end tag | the first `>` | `endTag_local` |
| instruction, document type, other declaration | the first `>` | `upTo_local`, `plainDeclaration_local` |
| comment | `--`, blanks, `>` | `declaration_local` |
| marked section | brackets, blanks, `>` | `markedSection_local` |
| raw content | an end tag of its name | `isEnd_afterRawEnd?` |

The statements are of the form that `PageComposer.Proofs.Markup.StartTags` tells of.
-/

import PageComposer.Proofs.Markup.StartTags

namespace PageComposer
namespace Markup

variable {p H : List Char}

/-! ### Ends of literal constructs -/

/-- An end of a construct: it ends with `>`, and beyond that it does not look. -/
structure IsEnd (close : List Char → Option (List Char)) : Prop where
  ends : ∀ {cs rest}, close cs = some rest → ∃ taken, cs = taken ++ '>' :: rest
  sees : ∀ {cs}, '>' ∈ cs → ∀ R, close (cs ++ R) = (close cs).map (· ++ R)

theorem IsEnd.mem {close : List Char → Option (List Char)} (hc : IsEnd close) {cs rest : List Char}
    (h : close cs = some rest) : '>' ∈ cs := by
  obtain ⟨taken, rfl⟩ := hc.ends h
  simp

/-- What stands up to an end before `H` does not depend on `H`. -/
theorem IsEnd.mem_of_longer {close : List Char → Option (List Char)} (hc : IsEnd close) {rest : List Char}
    (h : close (p ++ H) = some rest) (hr : H.length < rest.length) : '>' ∈ p := by
  obtain ⟨taken, htaken⟩ := hc.ends h
  have hsuffix : H <:+ rest := List.suffix_of_suffix_length_le (List.suffix_append p H)
    ⟨taken ++ ['>'], by rw [htaken]; simp⟩ (Nat.le_of_lt hr)
  obtain ⟨q, rfl⟩ := hsuffix
  rw [← List.cons_append, ← List.append_assoc] at htaken
  rw [List.append_cancel_right htaken]
  simp

theorem splitBefore?_mem {close : List Char → Option (List Char)} (hc : IsEnd close) {cs s rest : List Char}
    (h : splitBefore? close cs = some (s, rest)) : '>' ∈ cs := by
  induction cs generalizing s with
  | nil =>
    obtain ⟨r, hr, -⟩ := Option.map_eq_some_iff.1 h
    exact hc.mem hr
  | cons c cs ih =>
    unfold splitBefore? at h
    split at h
    · rename_i r hr
      exact hc.mem hr
    · obtain ⟨⟨s', r⟩, hs, he⟩ := Option.map_eq_some_iff.1 h
      obtain ⟨-, rfl⟩ := Prod.mk.inj he
      exact List.mem_cons_of_mem _ (ih hs)

theorem splitBefore?_append {close : List Char → Option (List Char)} (hc : IsEnd close) {cs s rest : List Char}
    (h : splitBefore? close cs = some (s, rest)) (R : List Char) :
    splitBefore? close (cs ++ R) = some (s, rest ++ R) := by
  induction cs generalizing s with
  | nil =>
    obtain ⟨r, hr, -⟩ := Option.map_eq_some_iff.1 h
    exact absurd (hc.mem hr) (by simp)
  | cons c cs ih =>
    have hmem := splitBefore?_mem hc h
    unfold splitBefore? at h
    rw [List.cons_append, splitBefore?, ← List.cons_append, hc.sees hmem]
    split at h
    · rename_i r hr
      obtain ⟨rfl, rfl⟩ : [] = s ∧ r = rest := by simpa using h
      rw [hr]
      rfl
    · rename_i hnone
      obtain ⟨⟨s', r⟩, hs, he⟩ := Option.map_eq_some_iff.1 h
      obtain ⟨rfl, rfl⟩ := Prod.mk.inj he
      rw [hnone, ih hs]
      rfl

/-- What stands up to an end before a hole is the same whatever stands in the hole. -/
theorem splitBefore?_local {close : List Char → Option (List Char)} (hc : IsEnd close)
    {s rest : List Char} (h : splitBefore? close (p ++ H) = some (s, rest)) (hr : H.length < rest.length) :
    ∃ q, q ≠ [] ∧ ∀ R, splitBefore? close (p ++ R) = some (s, q ++ R) := by
  have hsuffix {cs r : List Char} (hr : close cs = some r) : r <:+ cs := by
    obtain ⟨taken, rfl⟩ := hc.ends hr
    exact ⟨taken ++ ['>'], by simp⟩
  -- the end is found in `p` alone
  suffices hp : ∃ q, splitBefore? close p = some (s, q) by
    obtain ⟨q, hq⟩ := hp
    have hR := splitBefore?_append hc hq
    refine ⟨q, ?_, hR⟩
    rintro rfl
    rw [hR H] at h
    obtain rfl : H = rest := by simpa using h
    omega
  induction p generalizing s with
  | nil =>
    have := (splitBefore?_suffix hsuffix h).length_le
    rw [List.nil_append] at this
    omega
  | cons c p ih =>
    rw [List.cons_append, splitBefore?, ← List.cons_append] at h
    split at h
    · rename_i r hr'
      obtain ⟨rfl, rfl⟩ : [] = s ∧ r = rest := by simpa using h
      have hmem := hc.mem_of_longer hr' hr
      rw [hc.sees hmem] at hr'
      obtain ⟨q, hq, -⟩ := Option.map_eq_some_iff.1 hr'
      exact ⟨q, by rw [splitBefore?, hq]⟩
    · rename_i hnone
      obtain ⟨⟨s', r⟩, hs, he⟩ := Option.map_eq_some_iff.1 h
      obtain ⟨rfl, rfl⟩ := Prod.mk.inj he
      obtain ⟨q, hq⟩ := ih hs
      have hmem := splitBefore?_mem hc hq
      rw [hc.sees (List.mem_cons_of_mem _ hmem), Option.map_eq_none_iff] at hnone
      exact ⟨q, by rw [splitBefore?, hnone, hq]; rfl⟩

/-- What ends a run is found where it stands. -/
theorem dropWhile_append_of_mem {f : Char → Bool} {cs : List Char} {c : Char} (hc : c ∈ cs) (hf : f c = false)
    (R : List Char) : (cs ++ R).dropWhile f = cs.dropWhile f ++ R ∧ c ∈ cs.dropWhile f := by
  have hne : cs.dropWhile f ≠ [] := fun hnil => by
    have := List.dropWhile_eq_nil_iff.1 hnil c hc
    rw [hf] at this
    cases this
  refine ⟨by rw [List.dropWhile_append, if_neg (by simpa using hne)], ?_⟩
  rw [← List.takeWhile_append_dropWhile (p := f) (l := cs), List.mem_append] at hc
  rcases hc with hc | hc
  · rw [List.mem_takeWhile_imp hc] at hf
    cases hf
  · exact hc

theorem isBlank_angle : Text.isBlank '>' = false := by decide

theorem afterAngle?_cons (c : Char) (cs : List Char) : afterAngle? (c :: cs) = if c = '>' then some cs else none := by
  split
  · rename_i hc
    subst hc
    rfl
  · rename_i hc
    unfold afterAngle?
    split
    · exact absurd (List.cons.inj ‹_›).1 hc
    · rfl

theorem isEnd_afterAngle? : IsEnd afterAngle? where
  ends := by
    intro cs rest h
    unfold afterAngle? at h
    split at h
    · obtain rfl := Option.some.inj h
      exact ⟨[], rfl⟩
    · cases h
  sees := by
    intro cs h R
    obtain ⟨c, cs, rfl⟩ := List.exists_cons_of_ne_nil (List.ne_nil_of_mem h)
    rw [List.cons_append, afterAngle?_cons, afterAngle?_cons]
    split <;> rfl

/-- An end behind blanks is an end. -/
theorem IsEnd.blanks {close : List Char → Option (List Char)} (hc : IsEnd close) :
    IsEnd fun cs => close (cs.dropWhile Text.isBlank) where
  ends := by
    intro cs rest h
    obtain ⟨taken, htaken⟩ := hc.ends h
    refine ⟨cs.takeWhile Text.isBlank ++ taken, ?_⟩
    rw [List.append_assoc, ← htaken, List.takeWhile_append_dropWhile]
  sees := by
    intro cs h R
    obtain ⟨hdrop, hmem⟩ := dropWhile_append_of_mem h isBlank_angle R
    rw [hdrop, hc.sees hmem]

/-- What `close` leaves behind a character of a kind. -/
def behind (f : Char → Bool) (close : List Char → Option (List Char)) : List Char → Option (List Char)
  | [] => none
  | c :: cs => if f c then close cs else none

/-- An end behind a character is an end. -/
theorem IsEnd.behind {close : List Char → Option (List Char)} (hc : IsEnd close) {f : Char → Bool}
    (hf : f '>' = false) : IsEnd (behind f close) where
  ends := by
    intro cs rest h
    cases cs with
    | nil => cases h
    | cons c cs =>
      rw [Markup.behind] at h
      split at h
      · obtain ⟨taken, rfl⟩ := hc.ends h
        exact ⟨c :: taken, rfl⟩
      · cases h
  sees := by
    intro cs h R
    obtain ⟨c, cs, rfl⟩ := List.exists_cons_of_ne_nil (List.ne_nil_of_mem h)
    rw [List.cons_append, Markup.behind, Markup.behind]
    split
    · rename_i hc'
      refine hc.sees ((List.mem_cons.1 h).resolve_left ?_) R
      rintro rfl
      rw [hf] at hc'
      cases hc'
    · rfl

theorem isEnd_afterDashes? : IsEnd afterDashes? := by
  have heq : afterDashes? = behind (· == '-') (behind (· == '-') fun cs => afterAngle? (cs.dropWhile Text.isBlank)) := by
    funext cs
    rcases cs with _ | ⟨c, _ | ⟨d, cs⟩⟩
    · rfl
    · by_cases hc : c = '-' <;> simp [afterDashes?, behind, hc]
    · by_cases hc : c = '-' <;> by_cases hd : d = '-' <;> simp [afterDashes?, behind, hc, hd]
      rfl
  rw [heq]
  exact (isEnd_afterAngle?.blanks.behind rfl).behind rfl

/-- One bracket, blanks and an angle. -/
theorem afterBrackets?_false (cs : List Char) :
    afterBrackets? false (']' :: cs) = afterAngle? (cs.dropWhile Text.isBlank) := by
  rcases hds : cs.dropWhile Text.isBlank with _ | ⟨c, ds⟩
  · simp [afterBrackets?, hds, afterAngle?]
  · by_cases hc : c = '>' <;> simp [afterBrackets?, hds, afterAngle?_cons, hc]

/-- Two brackets are one and what one begins. -/
theorem afterBrackets?_true {cs ds : List Char} (h : cs.dropWhile Text.isBlank = ']' :: ds) :
    afterBrackets? true (']' :: cs) = afterBrackets? false (']' :: ds) := by
  simp [afterBrackets?, h]

theorem isEnd_afterBrackets? (double : Bool) : IsEnd (afterBrackets? double) := by
  have hone : IsEnd (behind (· == ']') fun cs => afterAngle? (cs.dropWhile Text.isBlank)) :=
    isEnd_afterAngle?.blanks.behind rfl
  cases double with
  | false =>
    have heq : afterBrackets? false = behind (· == ']') fun cs => afterAngle? (cs.dropWhile Text.isBlank) := by
      funext cs
      rcases cs with _ | ⟨c, cs⟩
      · rfl
      · by_cases hc : c = ']'
        · subst hc
          exact afterBrackets?_false cs
        · simp [afterBrackets?, behind, hc]
    rwa [heq]
  | true =>
    have heq : afterBrackets? true = behind (· == ']') fun cs =>
        behind (· == ']') (fun cs => afterAngle? (cs.dropWhile Text.isBlank)) (cs.dropWhile Text.isBlank) := by
      funext cs
      rcases cs with _ | ⟨c, cs⟩
      · rfl
      · by_cases hc : c = ']'
        · subst hc
          simp only [behind, if_true, beq_self_eq_true]
          rcases hcs : cs.dropWhile Text.isBlank with _ | ⟨d, ds⟩
          · simp [afterBrackets?, hcs]
          · by_cases hd : d = ']'
            · subst hd
              rw [afterBrackets?_true hcs, afterBrackets?_false]
              rfl
            · simp [afterBrackets?, hcs, hd]
        · simp [afterBrackets?, behind, hc]
    rw [heq]
    exact hone.blanks.behind rfl

/-- An end behind a name in any case is an end, if the name has no `>`. -/
theorem IsEnd.named {close : List Char → Option (List Char)} (hc : IsEnd close) {name : List Char}
    (hname : ∀ n ∈ name, isCaseOf n '>' = false) : IsEnd fun cs => (afterName? name cs).bind close := by
  induction name with
  | nil => exact hc
  | cons n name ih =>
    rw [List.forall_mem_cons] at hname
    have heq : (fun cs => (afterName? (n :: name) cs).bind close) =
        Markup.behind (isCaseOf n) fun cs => (afterName? name cs).bind close := by
      funext cs
      rcases cs with _ | ⟨c, cs⟩
      · rfl
      · by_cases hn : isCaseOf n c = true <;> simp [afterName?, Markup.behind, hn]
    rw [heq]
    exact (ih hname.2).behind hname.1

theorem isEnd_afterRawEnd? {name : String} (h : name ∈ rawElements) : IsEnd (afterRawEnd? name.toList) := by
  have hall : ∀ name ∈ rawElements, name.toList.all fun n => !isCaseOf n '>' := by decide +kernel
  have hname : ∀ n ∈ name.toList, isCaseOf n '>' = false := fun n hn => by
    simpa using List.all_eq_true.1 (hall name h) n hn
  have heq : afterRawEnd? name.toList = behind (· == '<') (behind (· == '/') fun cs =>
      (afterName? name.toList (cs.dropWhile Text.isBlank)).bind fun cs => afterAngle? (cs.dropWhile Text.isBlank)) := by
    funext cs
    rcases cs with _ | ⟨c, _ | ⟨d, cs⟩⟩
    · rfl
    · by_cases hc : c = '<' <;> simp [afterRawEnd?, behind, hc]
    · by_cases hc : c = '<' <;> by_cases hd : d = '/' <;> simp [afterRawEnd?, behind, hc, hd]
      cases afterName? name.toList (cs.dropWhile Text.isBlank) <;> rfl
  rw [heq]
  exact ((isEnd_afterAngle?.blanks.named hname).blanks.behind rfl).behind rfl

/-! ### Literal constructs and end tags -/

theorem splitAt?_local {c : Char} {s rest : List Char} (h : splitAt? c (p ++ H) = some (s, rest))
    (hr : H.length < rest.length) : ∃ q, q ≠ [] ∧ ∀ R, splitAt? c (p ++ R) = some (s, q ++ R) :=
  takeQuoted?_local h hr

/-- What an end tag is, given what stands between `</` and `>`. -/
def endTokens (inner : List Char) : List Token :=
  match plainEndName? inner with
  | some name => [.endTag (String.ofList (Text.lowered name))]
  | none =>
    match inner with
    | [] => []
    | c :: _ =>
      if Text.isAsciiLetter c then [.endTag (String.ofList (Text.lowered (inner.takeWhile isTagNameChar)))]
      else [.comment inner]

theorem endTag_eq (cs : List Char) :
    endTag cs = match splitAt? '>' cs with
      | none => .incomplete
      | some (inner, rest) => .whole (endTokens inner) rest := by
  unfold endTag endTokens
  cases splitAt? '>' cs with
  | none => rfl
  | some x =>
    obtain ⟨inner, rest⟩ := x
    dsimp only
    cases plainEndName? inner with
    | some name => rfl
    | none =>
      cases inner with
      | nil => rfl
      | cons c inner =>
        dsimp only
        split <;> rfl

theorem endTag_local {ts : List Token} {rest : List Char} (h : endTag (p ++ H) = .whole ts rest)
    (hr : H.length < rest.length) : ∃ q, q ≠ [] ∧ ∀ R, endTag (p ++ R) = .whole ts (q ++ R) := by
  rw [endTag_eq] at h
  split at h
  · cases h
  · rename_i inner r hs
    obtain ⟨rfl, rfl⟩ := Construct.whole.inj h
    obtain ⟨q, hq, hR⟩ := splitAt?_local hs hr
    exact ⟨q, hq, fun R => by rw [endTag_eq, hR]⟩

/-- A literal construct that ends before a hole is the same whatever stands there. -/
theorem upTo_local {close : List Char → Option (List Char)} (hc : IsEnd close) {token : List Char → Token}
    {ts : List Token} {rest : List Char} (h : upTo close token (p ++ H) = .whole ts rest) (hr : H.length < rest.length) :
    '>' ∈ p ∧ ∃ q, q ≠ [] ∧ ∀ R, upTo close token (p ++ R) = .whole ts (q ++ R) := by
  unfold upTo at h
  split at h
  · rename_i s r hs
    obtain ⟨rfl, rfl⟩ := Construct.whole.inj h
    obtain ⟨q, hq, hR⟩ := splitBefore?_local hc hs hr
    refine ⟨?_, q, hq, fun R => by rw [upTo, hR]⟩
    have hnil := hR []
    rw [List.append_nil] at hnil
    exact splitBefore?_mem hc hnil
  · cases h

theorem angle_mem_lowerWithSigma {cs : List Char} (cased : Bool) (h : '>' ∈ cs) : '>' ∈ Text.lowerWithSigma cased cs := by
  induction cs generalizing cased with
  | nil => cases h
  | cons c cs ih =>
    rw [Text.lowerWithSigma, List.mem_append]
    rcases List.mem_cons.1 h with rfl | hmem
    · rw [if_neg (by decide)]
      exact .inl (by decide)
    · exact .inr (ih _ hmem)

/-- No letter is lost with `>` beside it. -/
theorem angle_mem_lowered {cs : List Char} (h : '>' ∈ cs) : '>' ∈ Text.lowered cs := by
  unfold Text.lowered
  split
  · exact angle_mem_lowerWithSigma false h
  · exact List.mem_flatMap.2 ⟨'>', h, by decide⟩

theorem takeWhile_append_of_mem {f : Char → Bool} {cs : List Char} {c : Char} (hc : c ∈ cs) (hf : f c = false)
    (R : List Char) : (cs ++ R).takeWhile f = cs.takeWhile f := by
  have hlength : (cs.takeWhile f).length ≠ cs.length := by
    intro he
    have hall := List.takeWhile_eq_self_iff.1 ((List.takeWhile_prefix f).eq_of_length he) c hc
    rw [hf] at hall
    cases hall
  rw [List.takeWhile_append, if_neg hlength]

/-- Whether a marked section of a name ends with two brackets, or with one; none if the name is not known. -/
def sectionKind? (name : List Char) : Option Bool :=
  let word := String.ofList (Text.lowered name)
  if ["temp", "cdata", "ignore", "include", "rcdata"].contains word then some true
  else if ["if", "else", "endif"].contains word then some false
  else none

theorem markedSection_eq_whole {cs rest : List Char} {ts : List Token} :
    markedSection cs = .ok (.whole ts rest) ↔
      (∃ c, cs.head? = some c ∧ Text.isAsciiLetter c = true) ∧
        (cs.dropWhile isSectionNameChar).dropWhile Text.isBlank ≠ [] ∧
        ∃ double, sectionKind? (cs.takeWhile isSectionNameChar) = some double ∧
          upTo (afterBrackets? double) .marked cs = .whole ts rest := by
  rcases cs with _ | ⟨c, cs⟩
  · simp [markedSection]
  · simp only [markedSection, drop_length_takeWhile, sectionKind?, List.isEmpty_iff]
    by_cases hc : Text.isAsciiLetter c = true
    · by_cases he : ((c :: cs).dropWhile isSectionNameChar).dropWhile Text.isBlank = []
      · simp [hc, he]
      · simp only [hc, he, if_true, if_false]
        generalize ((c :: cs).dropWhile isSectionNameChar).dropWhile Text.isBlank = afterName at he
        split
        · simp [hc, he]
        · split <;> simp [hc, he]
    · simp [hc]

/-- A marked section that ends before a hole is the same whatever stands there. -/
theorem markedSection_local {ts : List Token} {rest : List Char} (h : markedSection (p ++ H) = .ok (.whole ts rest))
    (hr : H.length < rest.length) :
    '>' ∈ p ∧ ∃ q, q ≠ [] ∧ ∀ R, markedSection (p ++ R) = .ok (.whole ts (q ++ R)) := by
  obtain ⟨⟨c, hhead, hc⟩, -, double, hkind, hup⟩ := markedSection_eq_whole.1 h
  obtain ⟨hmem, q, hq, hR⟩ := upTo_local (isEnd_afterBrackets? double) hup hr
  refine ⟨hmem, q, hq, fun R => ?_⟩
  -- the name and the blanks behind it end before `>`
  have hsection : isSectionNameChar '>' = false := by decide
  obtain ⟨hdrop, hin⟩ := dropWhile_append_of_mem hmem hsection R
  obtain ⟨hblanks, hin'⟩ := dropWhile_append_of_mem hin isBlank_angle R
  rw [takeWhile_append_of_mem hmem hsection] at hkind
  refine markedSection_eq_whole.2 ⟨⟨c, ?_, hc⟩, ?_, double, ?_, hR R⟩
  · obtain ⟨d, p, rfl⟩ := List.exists_cons_of_ne_nil (List.ne_nil_of_mem hmem)
    exact hhead
  · rw [hdrop, hblanks]
    simp [List.ne_nil_of_mem hin']
  · rwa [takeWhile_append_of_mem hmem hsection]

/-- A declaration that is neither a comment in dashes nor a marked section. -/
def plainDeclaration (cs : List Char) : Construct :=
  if Text.lowered (cs.take 7) == "doctype".toList then upTo afterAngle? (fun s => .doctype (s.drop 1)) (cs.drop 7)
  else upTo afterAngle? .comment cs

theorem declaration_plain {cs : List Char} (hdashes : ∀ rest, cs ≠ '-' :: '-' :: rest)
    (hsection : ∀ rest, cs ≠ '[' :: rest) : declaration cs = .ok (plainDeclaration cs) := by
  unfold declaration plainDeclaration
  split
  · exact absurd rfl (hdashes _)
  · exact absurd rfl (hsection _)
  · split <;> rfl

theorem plainDeclaration_local {ts : List Token} {rest : List Char} (h : plainDeclaration (p ++ H) = .whole ts rest)
    (hr : H.length < rest.length) : '>' ∈ p ∧ ∃ q, q ≠ [] ∧ ∀ R, plainDeclaration (p ++ R) = .whole ts (q ++ R) := by
  unfold plainDeclaration at h ⊢
  split at h
  · rename_i hword
    have hlong : 7 ≤ p.length := by
      by_contra hshort
      have hrest := (within_upTo afterAngle?_suffix _ _ ts rest h).length_le
      rw [List.drop_append, List.drop_eq_nil_of_le (by omega), List.nil_append] at hrest
      have := (List.drop_suffix (7 - p.length) H).length_le
      omega
    rw [List.drop_append_of_le_length hlong] at h
    obtain ⟨hmem, q, hq, hR⟩ := upTo_local isEnd_afterAngle? h hr
    refine ⟨List.mem_of_mem_drop hmem, q, hq, fun R => ?_⟩
    rw [List.take_append_of_le_length hlong] at hword
    rw [List.take_append_of_le_length hlong, List.drop_append_of_le_length hlong, if_pos hword, hR]
  · rename_i hword
    obtain ⟨hmem, q, hq, hR⟩ := upTo_local isEnd_afterAngle? h hr
    refine ⟨hmem, q, hq, fun R => ?_⟩
    rw [if_neg, hR]
    by_cases hlong : 7 ≤ p.length
    · rwa [List.take_append_of_le_length hlong] at hword ⊢
    · -- a name with `>` in it is not the word
      intro he
      have hin : '>' ∈ (p ++ R).take 7 := by
        rw [List.take_append, List.take_of_length_le (by omega)]
        exact List.mem_append_left _ hmem
      have := angle_mem_lowered hin
      rw [beq_iff_eq.1 he] at this
      exact absurd this (by decide)

/-- A declaration that ends before a hole is the same whatever stands there. -/
theorem declaration_local (hH : IsHole H) {ts : List Token} {rest : List Char}
    (h : declaration (p ++ H) = .ok (.whole ts rest)) (hr : H.length < rest.length) :
    ∃ q, q ≠ [] ∧ ∀ R, declaration (p ++ R) = .ok (.whole ts (q ++ R)) := by
  -- what the declaration is, does not depend on what stands in the hole
  have hplain (hdashes : ∀ X, '>' ∈ p ∨ X = H → ∀ rest, p ++ X ≠ '-' :: '-' :: rest)
      (hsection : ∀ X rest, p ++ X ≠ '[' :: rest) :
      ∃ q, q ≠ [] ∧ ∀ R, declaration (p ++ R) = .ok (.whole ts (q ++ R)) := by
    rw [declaration_plain (hdashes H (.inr rfl)) (hsection H)] at h
    obtain ⟨hmem, q, hq, hR⟩ := plainDeclaration_local (Except.ok.inj h) hr
    exact ⟨q, hq, fun R => by rw [declaration_plain (hdashes R (.inl hmem)) (hsection R), hR]⟩
  cases p with
  | nil =>
    have := (within_declaration h ts rest rfl).length_le
    rw [List.nil_append] at this
    omega
  | cons c p =>
    by_cases hc : c = '['
    · subst hc
      obtain ⟨-, hR⟩ := markedSection_local (p := p) h hr
      exact hR
    · have hsection (X rest : List Char) : c :: p ++ X ≠ '[' :: rest := by simp [hc]
      cases p with
      | nil =>
        refine hplain ?_ hsection
        rintro X (hmem | rfl) rest he
        · obtain rfl := List.mem_singleton.1 hmem
          exact absurd (List.cons.inj he).1 (by decide)
        · obtain ⟨-, rfl⟩ := List.cons.inj he
          exact absurd hH.sign (by simp)
      | cons d p =>
        by_cases hd : c = '-' ∧ d = '-'
        · obtain ⟨rfl, rfl⟩ := hd
          obtain ⟨-, q, hq, hR⟩ := upTo_local isEnd_afterDashes? (p := p) (Except.ok.inj h) hr
          exact ⟨q, hq, fun R => congrArg Except.ok (hR R)⟩
        · refine hplain (fun X _ rest he => hd ?_) hsection
          simp only [List.cons_append, List.cons.injEq] at he
          exact ⟨he.1, he.2.1⟩

end Markup
end PageComposer
