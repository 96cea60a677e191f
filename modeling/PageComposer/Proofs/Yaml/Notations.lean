/-
# The notations of numbers

What a plain number is made of, once its sign and its underscores are taken off.

| number | form |
| --- | --- |
| `IntegerBody` | `0`, octal digits behind a `0`, digits behind `0b` or `0x`, decimal digits, base sixty |
| `DecimalBody` | digits with a point, perhaps with an exponent, or base sixty with a point |

The marks `0b` and `0x` are numbers too if nothing but underscores follows: no digits are left then.
-/

import PageComposer.Proofs.Decimal.Conversion
import PageComposer.Yaml.Build

namespace PageComposer
namespace Yaml

/-! ### Ends -/

/-- No line feed ends the text. -/
def Unbroken (cs : List Char) : Prop := ¬ ['\n'] <:+ cs

instance (cs : List Char) : Decidable (Unbroken cs) := inferInstanceAs (Decidable (¬ _))

theorem Unbroken.eq_nil {cs rest : List Char} (h : Unbroken cs) (hrest : rest <:+ cs) (hend : atEnd rest = true) :
    rest = [] := by
  simp only [atEnd, Bool.or_eq_true, List.isEmpty_iff, beq_iff_eq] at hend
  obtain rfl | rfl := hend
  · rfl
  · exact absurd hrest h

theorem Unbroken.suffix {cs rest : List Char} (h : Unbroken cs) (hrest : rest <:+ cs) : Unbroken rest :=
  fun hend => h (hend.trans hrest)

theorem afterSign_suffix (cs : List Char) : afterSign cs <:+ cs := by
  unfold afterSign
  split
  · split
    · exact List.suffix_cons ..
    · exact List.suffix_rfl
  · exact List.suffix_rfl

/-- A text is one of some words. -/
theorem mem_of_isOneOf {words : List String} {cs : List Char} (hcs : Unbroken cs) (h : isOneOf words cs = true) :
    ∃ w ∈ words, cs = w.toList := by
  obtain ⟨w, hw, hword⟩ := List.any_eq_true.1 h
  rw [Bool.and_eq_true, List.isPrefixOf_iff_prefix] at hword
  obtain ⟨⟨rest, rfl⟩, hend⟩ := hword
  have hdrop : (w.toList ++ rest).drop w.length = rest := by
    rw [← String.length_toList, List.drop_left]
  rw [hdrop] at hend
  obtain rfl := hcs.eq_nil (List.suffix_append ..) hend
  exact ⟨w, hw, List.append_nil _⟩

/-! ### Digits -/

/-- Decimal digits, one at least. -/
def Digits (cs : List Char) : Prop := cs ≠ [] ∧ ∀ c ∈ cs, Text.isAsciiDigit c = true

/-- A number without its underscores. -/
def bare (cs : List Char) : List Char := cs.filter (· != '_')

theorem toList_unspaced (s : String) : (unspaced s).toList = bare s.toList := String.toList_ofList

theorem bare_append (cs ds : List Char) : bare (cs ++ ds) = bare cs ++ bare ds := List.filter_append ..

theorem bare_cons {c : Char} (h : c ≠ '_') (cs : List Char) : bare (c :: cs) = c :: bare cs :=
  List.filter_cons_of_pos (bne_iff_ne.2 h)

theorem bare_eq_self {cs : List Char} (h : '_' ∉ cs) : bare cs = cs :=
  List.filter_eq_self.2 fun _ hc => bne_iff_ne.2 fun he => h (he ▸ hc)

theorem mem_bare {cs : List Char} {c : Char} : c ∈ bare cs ↔ c ∈ cs ∧ c ≠ '_' := by
  rw [bare, List.mem_filter, bne_iff_ne]

theorem ne_underscore {c : Char} (h : Text.isAsciiDigit c = true) : c ≠ '_' := by
  rintro rfl
  cases h

/-- The sign of a number stays where it is. -/
theorem afterSign_bare {cs : List Char} (h : (afterSign cs).head? ≠ some '_') :
    afterSign (bare cs) = bare (afterSign cs) := by
  cases cs with
  | nil => rfl
  | cons c rest =>
    by_cases hsign : (c == '-' || c == '+') = true
    · have hc : c ≠ '_' := by
        rintro rfl
        cases hsign
      rw [bare_cons hc, afterSign, if_pos hsign, afterSign, if_pos hsign]
    · rw [afterSign, if_neg hsign] at h ⊢
      rw [bare_cons (fun hc => h (congrArg some hc)), afterSign, if_neg hsign]

theorem isAsciiDigit_of_spaced {cs : List Char} {d : Char} (h : d ∈ bare (cs.takeWhile isSpacedDigit)) :
    Text.isAsciiDigit d = true := by
  obtain ⟨hd, hne⟩ := mem_bare.1 h
  have hspaced := List.all_eq_true.1 List.all_takeWhile d hd
  simpa [isSpacedDigit, hne] using hspaced

/-- Digits with underscores among them, and what follows them. -/
theorem afterDigits?_eq_some {cs rest : List Char} (h : afterDigits? cs = some rest) :
    ∃ ds, cs = ds ++ rest ∧ Digits (bare ds) ∧ cs.head? ≠ some '_' := by
  unfold afterDigits? at h
  split at h
  · rename_i c tail
    split at h
    · rename_i hc
      obtain rfl := Option.some.inj h
      refine ⟨c :: tail.takeWhile isSpacedDigit, ?_, ?_, fun he => ne_underscore hc (Option.some.inj he)⟩
      · rw [List.cons_append, List.takeWhile_append_dropWhile]
      · rw [bare_cons (ne_underscore hc)]
        exact ⟨List.cons_ne_nil _ _, List.forall_mem_cons.2 ⟨hc, fun d hd => isAsciiDigit_of_spaced hd⟩⟩
    · cases h
  · cases h

/-! ### Base sixty -/

/-- The further digits of a number in base sixty as they are written. -/
def sixtieths (groups : List (List Char)) : List Char := groups.flatMap (':' :: ·)

theorem isAsciiDigit_of_le {c d : Char} (hd : d ≤ '9') (h : ('0' ≤ c && c ≤ d) = true) :
    Text.isAsciiDigit c = true := by
  simp only [Bool.and_eq_true, decide_eq_true_eq] at h
  simp only [Text.isAsciiDigit, Bool.and_eq_true, decide_eq_true_eq]
  exact ⟨h.1, Char.le_trans h.2 hd⟩

theorem digits_singleton {c : Char} (h : Text.isAsciiDigit c = true) : Digits [c] :=
  ⟨List.cons_ne_nil _ _, List.forall_mem_singleton.2 h⟩

theorem afterSixtieth?_eq_some {cs rest : List Char} (h : afterSixtieth? cs = some rest) :
    ∃ g, cs = ':' :: g ++ rest ∧ Digits g := by
  unfold afterSixtieth? at h
  split at h
  · rename_i a b tail
    split at h
    · rename_i hab
      obtain rfl := Option.some.inj h
      rw [Bool.and_eq_true] at hab
      have ha := isAsciiDigit_of_le (by decide) hab.1
      exact ⟨[a, b], rfl, List.cons_ne_nil _ _, List.forall_mem_cons.2 ⟨ha, List.forall_mem_singleton.2 hab.2⟩⟩
    · split at h
      · rename_i ha
        obtain rfl := Option.some.inj h
        exact ⟨[a], rfl, digits_singleton ha⟩
      · cases h
  · rename_i a
    split at h
    · rename_i ha
      obtain rfl := Option.some.inj h
      exact ⟨[a], rfl, digits_singleton ha⟩
    · cases h
  · cases h

theorem afterSixtieths_eq (fuel : Nat) (found : Bool) (cs : List Char) :
    ∃ groups, cs = sixtieths groups ++ (afterSixtieths fuel found cs).2 ∧ ∀ g ∈ groups, Digits g := by
  induction fuel generalizing found cs with
  | zero => exact ⟨[], rfl, nofun⟩
  | succ fuel ih =>
    unfold afterSixtieths
    split
    · rename_i rest hrest
      obtain ⟨g, rfl, hg⟩ := afterSixtieth?_eq_some hrest
      obtain ⟨groups, heq, hgroups⟩ := ih true rest
      refine ⟨g :: groups, ?_, List.forall_mem_cons.2 ⟨hg, hgroups⟩⟩
      conv_lhs => rw [heq]
      simp [sixtieths]
    · exact ⟨[], rfl, nofun⟩

theorem bare_sixtieths {groups : List (List Char)} (h : ∀ g ∈ groups, Digits g) :
    bare (sixtieths groups) = sixtieths groups := by
  refine bare_eq_self fun hmem => ?_
  obtain ⟨g, hg, hmem⟩ := List.mem_flatMap.1 hmem
  obtain he | hmem := List.mem_cons.1 hmem
  · cases he
  · exact ne_underscore ((h g hg).2 _ hmem) rfl

/-! ### Integers -/

/-- An integer without its sign. -/
inductive IntegerBody : List Char → Prop
  | octal {ds : List Char} (digits : ∀ d ∈ ds, ('0' ≤ d && d ≤ '7') = true) : IntegerBody ('0' :: ds)
  | binary {ds : List Char} (digits : ∀ d ∈ ds, ('0' ≤ d && d ≤ '1') = true) : IntegerBody ('0' :: 'b' :: ds)
  | hexadecimal {ds : List Char} (digits : ∀ d ∈ ds, Text.isHexDigit d = true) : IntegerBody ('0' :: 'x' :: ds)
  | decimal {c : Char} {first : List Char} {groups : List (List Char)} (head : c ≠ '0')
      (digits : Digits (c :: first)) (further : ∀ g ∈ groups, Digits g) : IntegerBody (c :: first ++ sixtieths groups)

theorem takeWhile_eq_of_drop {p : Char → Bool} {cs : List Char} (h : cs.drop (cs.takeWhile p).length = []) :
    cs.takeWhile p = cs :=
  (List.takeWhile_prefix p).eq_of_length
    (Nat.le_antisymm (List.takeWhile_prefix p).length_le (List.drop_eq_nil_iff.1 h))

theorem of_isSomeOf {p : Char → Bool} {cs : List Char} (hcs : Unbroken cs) (h : isSomeOf p cs = true) {d : Char}
    (hd : d ∈ bare cs) : p d = true := by
  obtain ⟨hmem, hne⟩ := mem_bare.1 hd
  rw [isSomeOf, Bool.and_eq_true] at h
  have hall : cs.takeWhile (fun c => p c || c == '_') = cs :=
    takeWhile_eq_of_drop (hcs.eq_nil (List.drop_suffix _ _) h.2)
  rw [← hall] at hmem
  have hp := List.all_eq_true.1 List.all_takeWhile d hmem
  simpa [hne] using hp

/-- What stands behind the first digits of an integer. -/
theorem sixtieths_of_rest {cs : List Char} (hcs : Unbroken cs)
    (h : (atEnd cs || match afterSixtieths cs.length false cs with
      | (true, rest) => atEnd rest
      | _ => false) = true) : ∃ groups, cs = sixtieths groups ∧ ∀ g ∈ groups, Digits g := by
  rw [Bool.or_eq_true] at h
  obtain hend | hsixty := h
  · exact ⟨[], hcs.eq_nil List.suffix_rfl hend, nofun⟩
  · obtain ⟨groups, heq, hgroups⟩ := afterSixtieths_eq cs.length false cs
    split at hsixty
    · rename_i rest hrest
      rw [hrest] at heq
      have hsuffix : rest <:+ cs := ⟨sixtieths groups, heq.symm⟩
      obtain rfl := hcs.eq_nil hsuffix hsixty
      exact ⟨groups, heq.trans (List.append_nil _), hgroups⟩
    · cases hsixty

theorem integerBody_of_isInteger {cs : List Char} (hcs : Unbroken cs) (h : isInteger cs = true) :
    (afterSign cs).head? ≠ some '_' ∧ IntegerBody (bare (afterSign cs)) := by
  have hafter := hcs.suffix (afterSign_suffix cs)
  unfold isInteger at h
  extract_lets isBetween at h
  split at h
  · rename_i rest hbody
    rw [hbody] at hafter ⊢
    have hrest : Unbroken rest := hafter.suffix (List.suffix_cons ..)
    refine ⟨nofun, ?_⟩
    rw [bare_cons (by decide)]
    simp only [Bool.or_eq_true] at h
    obtain (hend | hoctal) | hmark := h
    · obtain rfl := hrest.eq_nil List.suffix_rfl hend
      exact .octal nofun
    · exact .octal fun d hd => of_isSomeOf hrest hoctal hd
    · split at hmark
      · rw [bare_cons (by decide)]
        exact .binary fun d hd => of_isSomeOf (hrest.suffix (List.suffix_cons ..)) hmark hd
      · rw [bare_cons (by decide)]
        exact .hexadecimal fun d hd => of_isSomeOf (hrest.suffix (List.suffix_cons ..)) hmark hd
      · cases hmark
  · rename_i c rest hzero hbody
    rw [hbody] at hafter ⊢
    rw [Bool.and_eq_true] at h
    obtain ⟨hc, h⟩ := h
    have hdigit : Text.isAsciiDigit c = true := by
      simp only [isBetween, Bool.and_eq_true, decide_eq_true_eq] at hc
      simp only [Text.isAsciiDigit, Bool.and_eq_true, decide_eq_true_eq]
      exact ⟨Char.le_trans (by decide) hc.1, hc.2⟩
    refine ⟨fun he => ne_underscore hdigit (Option.some.inj he), ?_⟩
    have hdropped : Unbroken (rest.dropWhile isSpacedDigit) :=
      hafter.suffix ((List.dropWhile_suffix _).trans (List.suffix_cons ..))
    obtain ⟨groups, heq, hgroups⟩ := sixtieths_of_rest hdropped h
    have hrest : rest = rest.takeWhile isSpacedDigit ++ sixtieths groups := by
      rw [← heq, List.takeWhile_append_dropWhile]
    have hbare : bare (c :: rest) = c :: bare (rest.takeWhile isSpacedDigit) ++ sixtieths groups := by
      conv_lhs => rw [hrest]
      rw [bare_cons (ne_underscore hdigit), bare_append, bare_sixtieths hgroups, List.cons_append]
    rw [hbare]
    exact .decimal hzero ⟨List.cons_ne_nil _ _, List.forall_mem_cons.2 ⟨hdigit, fun _ => isAsciiDigit_of_spaced⟩⟩ hgroups
  · cases h

/-! ### Decimals -/

/-- An exponent, or nothing. -/
def IsExponent (cs : List Char) : Prop :=
  cs = [] ∨ ∃ e s ds, cs = e :: s :: ds ∧ (e = 'e' ∨ e = 'E') ∧ (s = '-' ∨ s = '+') ∧ Digits ds

/-- A decimal without its sign. -/
inductive DecimalBody : List Char → Prop
  | pointed {whole fraction exponent : List Char} (digits : Digits (whole ++ fraction)) (power : IsExponent exponent) :
      DecimalBody (whole ++ '.' :: fraction ++ exponent)
  | sixties {first fraction : List Char} {groups : List (List Char)} (digits : Digits first)
      (further : ∀ g ∈ groups, Digits g) (behind : ∀ c ∈ fraction, Text.isAsciiDigit c = true) :
      DecimalBody (first ++ sixtieths groups ++ '.' :: fraction)

theorem isExponent_of_afterExponent {cs : List Char} (hcs : Unbroken cs) (h : atEnd (afterExponent cs) = true) :
    IsExponent cs := by
  unfold afterExponent at h
  split at h
  · rename_i e s rest
    extract_lets digits at h
    split at h
    · rename_i hmarks
      simp only [Bool.and_eq_true, Bool.or_eq_true, beq_iff_eq, Bool.not_eq_true', List.isEmpty_eq_false_iff] at hmarks
      obtain ⟨⟨he, hs⟩, hne⟩ := hmarks
      have hrest : rest.drop digits.length <:+ e :: s :: rest :=
        (List.drop_suffix _ _).trans ((List.suffix_cons ..).trans (List.suffix_cons ..))
      have hdigits : digits = rest := takeWhile_eq_of_drop (hcs.eq_nil hrest h)
      rw [hdigits] at hne
      refine .inr ⟨e, s, rest, rfl, he, hs, hne, ?_⟩
      rw [← hdigits]
      exact List.all_eq_true.1 List.all_takeWhile
    · exact .inl (hcs.eq_nil List.suffix_rfl h)
  · exact .inl (hcs.eq_nil List.suffix_rfl h)

theorem IsExponent.bare_eq {cs : List Char} (h : IsExponent cs) : bare cs = cs := by
  refine bare_eq_self fun hmem => ?_
  obtain rfl | ⟨e, s, ds, rfl, he, hs, hds⟩ := h
  · cases hmem
  · rcases List.mem_cons.1 hmem with rfl | hmem
    · rcases he with he | he <;> cases he
    · rcases List.mem_cons.1 hmem with rfl | hmem
      · rcases hs with hs | hs <;> cases hs
      · exact ne_underscore (hds.2 _ hmem) rfl

theorem decimalBody_of_isPointed {cs : List Char} (hcs : Unbroken cs) (h : isPointed cs = true) :
    cs.head? ≠ some '_' ∧ DecimalBody (bare cs) := by
  unfold isPointed at h
  split at h
  · rename_i rest hrest
    obtain ⟨ds, rfl, hds, hhead⟩ := afterDigits?_eq_some hrest
    have htail : Unbroken (rest.dropWhile isSpacedDigit) := hcs.suffix
      ((List.dropWhile_suffix _).trans ((List.suffix_cons ..).trans (List.suffix_append ..)))
    have hexponent := isExponent_of_afterExponent htail h
    have hbare : bare (ds ++ '.' :: rest) =
        bare ds ++ '.' :: bare (rest.takeWhile isSpacedDigit) ++ rest.dropWhile isSpacedDigit := by
      conv_lhs => rw [← List.takeWhile_append_dropWhile (p := isSpacedDigit) (l := rest)]
      rw [bare_append, bare_cons (by decide), bare_append, hexponent.bare_eq, List.append_assoc, List.cons_append]
    rw [hbare]
    refine ⟨hhead, .pointed ⟨List.append_ne_nil_of_left_ne_nil hds.1 _, ?_⟩ hexponent⟩
    exact List.forall_mem_append.2 ⟨hds.2, fun _ => isAsciiDigit_of_spaced⟩
  · cases h

theorem decimalBody_of_isFraction {cs : List Char} (hcs : Unbroken cs) (h : isFraction cs = true) :
    afterSign cs = cs ∧ cs.head? ≠ some '_' ∧ DecimalBody (bare cs) := by
  unfold isFraction at h
  split at h
  · rename_i rest
    split at h
    · rename_i tail htail
      obtain ⟨ds, rfl, hds, -⟩ := afterDigits?_eq_some htail
      have hexponent := isExponent_of_afterExponent
        (hcs.suffix ((List.suffix_append ..).trans (List.suffix_cons ..))) h
      have hbody : DecimalBody ([] ++ '.' :: bare ds ++ tail) := .pointed hds hexponent
      rw [bare_cons (by decide), bare_append, hexponent.bare_eq]
      exact ⟨rfl, nofun, hbody⟩
    · cases h
  · cases h

theorem decimalBody_of_isSixtyPointed {cs : List Char} (hcs : Unbroken cs) (h : isSixtyPointed cs = true) :
    cs.head? ≠ some '_' ∧ DecimalBody (bare cs) := by
  unfold isSixtyPointed at h
  split at h
  · rename_i rest hrest
    obtain ⟨ds, rfl, hds, hhead⟩ := afterDigits?_eq_some hrest
    split at h
    · rename_i tail htail
      obtain ⟨groups, heq, hgroups⟩ := afterSixtieths_eq rest.length false rest
      rw [htail] at heq
      subst heq
      have hdropped : tail.dropWhile isSpacedDigit = [] := hcs.eq_nil ((List.dropWhile_suffix _).trans
        ((List.suffix_cons ..).trans ((List.suffix_append ..).trans (List.suffix_append ..)))) h
      have htaken : tail.takeWhile isSpacedDigit = tail := by
        have := List.takeWhile_append_dropWhile (p := isSpacedDigit) (l := tail)
        rwa [hdropped, List.append_nil] at this
      have hbare : bare (ds ++ (sixtieths groups ++ '.' :: tail)) =
          bare ds ++ sixtieths groups ++ '.' :: bare tail := by
        rw [bare_append, bare_append, bare_sixtieths hgroups, bare_cons (by decide), List.append_assoc]
      refine ⟨hhead, hbare ▸ .sixties hds hgroups fun c hc => ?_⟩
      rw [← htaken] at hc
      exact isAsciiDigit_of_spaced hc
    · cases h
  · cases h

/-- A decimal that is no word has the form of one behind its sign. -/
theorem decimalBody_of_isDecimal {cs : List Char} (hcs : Unbroken cs) (h : isDecimal cs = true) :
    (afterSign cs).head? ≠ some '_' ∧ DecimalBody (bare (afterSign cs)) ∨
      (∃ w ∈ [".inf", ".Inf", ".INF"], afterSign cs = w.toList) ∨ ∃ w ∈ [".nan", ".NaN", ".NAN"], cs = w.toList := by
  have hafter := hcs.suffix (afterSign_suffix cs)
  simp only [isDecimal, Bool.or_eq_true] at h
  rcases h with (((h | h) | h) | h) | h
  · exact .inl (decimalBody_of_isPointed hafter h)
  · obtain ⟨hsign, hbody⟩ := decimalBody_of_isFraction hcs h
    rw [hsign]
    exact .inl hbody
  · exact .inl (decimalBody_of_isSixtyPointed hafter h)
  · exact .inr (.inl (mem_of_isOneOf hafter h))
  · exact .inr (.inr (mem_of_isOneOf hcs h))

end Yaml
end PageComposer
