/-
# Which numerals are converted

A numeral is told by its form first and converted then, each by rules of its own.

| form | conversion | refused |
| --- | --- | --- |
| sign and digits (`isIntegerNumeral`) | `readInt`, with blanks around it | separators among the blanks, more than 4300 digits |
| sign and digits with a point (`IsPointed`) | `readDecimal?` | never (`readDecimal?_of_isPointed`) |
-/

import Mathlib.Data.List.TakeWhile
import PageComposer.Decimal.Numeral
import PageComposer.Proofs.Text.Blanks

namespace PageComposer

namespace Text

theorem isDigit_iff {c : Char} : isDigit c = true ↔ ∃ d, digitValue? c = some d :=
  Option.isSome_iff_exists

/-- A character that is no digit is none of some digits. -/
theorem ne_of_isDigit {c d : Char} (hc : isDigit c = true) (hd : isDigit d = false) : c ≠ d := by
  rintro rfl
  exact Bool.false_ne_true (hd.symm.trans hc)

/-- One of the four information separators. They are blanks, but not around numerals. -/
def IsSeparator (c : Char) : Prop := 28 ≤ c.toNat ∧ c.toNat ≤ 31

instance (c : Char) : Decidable (IsSeparator c) := inferInstanceAs (Decidable (_ ∧ _))

theorem isNumeralBlank_iff {c : Char} : isNumeralBlank c = true ↔ isBlank c = true ∧ ¬IsSeparator c := by
  simp only [isNumeralBlank, IsSeparator, Bool.and_eq_true, Bool.not_eq_true', Bool.and_eq_false_iff,
    decide_eq_false_iff_not, not_and_or]

theorem isNumeralBlank_of_not_isBlank {c : Char} (h : isBlank c = false) : isNumeralBlank c = false := by
  rw [isNumeralBlank, h, Bool.false_and]

theorem isBlank_of_isSeparator {c : Char} (h : IsSeparator c) : isBlank c = true := by
  have hrange : (28 ≤ c.toNat && c.toNat ≤ 32) = true := by
    simp only [Bool.and_eq_true, decide_eq_true_eq]
    exact ⟨h.1, by have := h.2; omega⟩
  simp only [isBlank, hrange, Bool.or_true, Bool.true_or]

/-- No blank beyond ASCII stands among the digits of a script. -/
theorem digitZeros_apart :
    ∀ z ∈ digitZeros, 0xa0 < z ∧ z + 9 < 0x1680 ∨ 0x1680 < z ∧ z + 9 < 0x2000 ∨ 0x3000 < z := by
  decide +kernel

/-- No digit is a blank. -/
theorem isBlank_of_isDigit {c : Char} (h : isDigit c = true) : isBlank c = false := by
  obtain ⟨d, hd⟩ := isDigit_iff.1 h
  have hrange : 48 ≤ c.toNat ∧ c.toNat ≤ 57 ∨ 0xa0 < c.toNat ∧ c.toNat < 0x1680 ∨
      0x1680 < c.toNat ∧ c.toNat < 0x2000 ∨ 0x3000 < c.toNat := by
    unfold digitValue? at hd
    split at hd
    · split at hd
      · rename_i hascii
        simp only [isAsciiDigit, Bool.and_eq_true, decide_eq_true_eq] at hascii
        exact .inl hascii
      · cases hd
    · obtain ⟨z, hz, -⟩ := Option.map_eq_some_iff.1 hd
      have hnear := List.find?_some hz
      have hapart := digitZeros_apart z (List.mem_of_find?_eq_some hz)
      simp only [Bool.and_eq_true, decide_eq_true_eq] at hnear
      omega
  rw [Bool.eq_false_iff]
  intro hblank
  simp only [isBlank, Bool.or_eq_true, Bool.and_eq_true, decide_eq_true_eq, beq_iff_eq] at hblank
  omega

end Text

namespace Decimal

open Text (isDigit digitValue?)

/-- The values of the digits in a text. -/
def digitsOf (cs : List Char) : List Nat := cs.filterMap digitValue?

theorem digitsOf_cons {c : Char} {d : Nat} (h : digitValue? c = some d) (cs : List Char) :
    digitsOf (c :: cs) = d :: digitsOf cs :=
  List.filterMap_cons_some h

theorem digitsOf_append (cs ds : List Char) : digitsOf (cs ++ ds) = digitsOf cs ++ digitsOf ds :=
  List.filterMap_append

theorem length_digitsOf {cs : List Char} (h : ∀ c ∈ cs, isDigit c = true) : (digitsOf cs).length = cs.length :=
  List.filterMap_length_eq_length.2 h

theorem plainDigits?_of_digits {cs : List Char} (h : ∀ c ∈ cs, isDigit c = true) :
    plainDigits? cs = some (digitsOf cs) := by
  induction cs with
  | nil => rfl
  | cons c cs ih =>
    rw [List.forall_mem_cons] at h
    obtain ⟨d, hd⟩ := Text.isDigit_iff.1 h.1
    have := ih h.2
    rw [plainDigits?] at this ⊢
    rw [List.mapM_cons, hd, this, digitsOf_cons hd]
    rfl

theorem digits_of_plainDigits? {cs : List Char} {ds : List Nat} (h : plainDigits? cs = some ds) :
    ∀ c ∈ cs, isDigit c = true := by
  induction cs generalizing ds with
  | nil => nofun
  | cons c cs ih =>
    rw [plainDigits?, List.mapM_cons] at h
    obtain ⟨d, hd, h⟩ := Option.bind_eq_some_iff.1 h
    obtain ⟨ds', hds, -⟩ := Option.bind_eq_some_iff.1 h
    exact List.forall_mem_cons.2 ⟨Text.isDigit_iff.2 ⟨d, hd⟩, ih hds⟩

/-- Digits without underscores are read as they are. -/
theorem digitValues?_of_digits {cs : List Char} (hne : cs ≠ []) (h : ∀ c ∈ cs, isDigit c = true) :
    digitValues? cs = some (digitsOf cs) := by
  induction cs with
  | nil => exact absurd rfl hne
  | cons c cs ih =>
    rw [List.forall_mem_cons] at h
    obtain ⟨d, hd⟩ := Text.isDigit_iff.1 h.1
    cases cs with
    | nil => rw [digitValues?, digitsOf_cons hd, hd]; rfl
    | cons c' cs =>
      have hunderscore : c' ≠ '_' := Text.ne_of_isDigit (h.2 c' (List.mem_cons_self ..)) (by decide)
      have hrest := ih (List.cons_ne_nil _ _) h.2
      rw [digitValues?, hd, hrest, digitsOf_cons hd]
      · rfl
      · nofun
      · exact fun rest heq => hunderscore (List.cons.inj heq).1

/-- What is read as digits is made of digits and underscores. -/
theorem mem_of_digitValues? {cs : List Char} {ds : List Nat} (h : digitValues? cs = some ds) :
    ∀ c ∈ cs, isDigit c = true ∨ c = '_' := by
  fun_induction digitValues? cs generalizing ds with
  | case1 => cases h
  | case2 c =>
    obtain ⟨d, hd, -⟩ := Option.map_eq_some_iff.1 h
    exact List.forall_mem_singleton.2 (.inl (Text.isDigit_iff.2 ⟨d, hd⟩))
  | case3 c rest ih =>
    obtain ⟨d, hd, h⟩ := Option.bind_eq_some_iff.1 h
    obtain ⟨ds', hds, -⟩ := Option.bind_eq_some_iff.1 h
    exact List.forall_mem_cons.2 ⟨.inl (Text.isDigit_iff.2 ⟨d, hd⟩),
      List.forall_mem_cons.2 ⟨.inr rfl, ih hds⟩⟩
  | case4 c rest _ _ ih =>
    obtain ⟨d, hd, h⟩ := Option.bind_eq_some_iff.1 h
    obtain ⟨ds', hds, -⟩ := Option.bind_eq_some_iff.1 h
    exact List.forall_mem_cons.2 ⟨.inl (Text.isDigit_iff.2 ⟨d, hd⟩), ih hds⟩

/-! ### Digits that are written -/

/-- Digits that are written are ASCII. -/
theorem digit_of_toDigits {n : Nat} {c : Char} (h : c ∈ Nat.toDigits 10 n) :
    Text.isAsciiDigit c = true ∧ digitValue? c = some (c.toNat - 48) := by
  have hdigit := Nat.isDigit_of_mem_toDigits (by decide) (Nat.le_refl 10) h
  simp only [Char.isDigit, Bool.and_eq_true, decide_eq_true_eq] at hdigit
  have hascii : Text.isAsciiDigit c = true := by
    simp only [Text.isAsciiDigit, Bool.and_eq_true, decide_eq_true_eq]
    exact hdigit
  have h9 : c.toNat ≤ 57 := hdigit.2
  exact ⟨hascii, by rw [digitValue?, if_pos (by omega), if_pos hascii]⟩

theorem digitsOf_toDigits (n : Nat) :
    digitsOf (Nat.toDigits 10 n) = (Nat.toDigits 10 n).map fun c => c.toNat - 48 := by
  have hvalues {cs : List Char} (h : ∀ c ∈ cs, digitValue? c = some (c.toNat - 48)) :
      digitsOf cs = cs.map fun c => c.toNat - 48 := by
    induction cs with
    | nil => rfl
    | cons c cs ih =>
      rw [List.forall_mem_cons] at h
      rw [digitsOf_cons h.1, List.map_cons, ih h.2]
  exact hvalues fun c hc => (digit_of_toDigits hc).2

/-- **A number is denoted by the digits that it is written with.** -/
theorem ofDigits_toDigits (n : Nat) : ofDigits 10 (digitsOf (Nat.toDigits 10 n)) = n := by
  have hnumber := Nat.ofDigitChars_toDigits (n := n) (by decide : 1 < 10) (Nat.le_refl 10)
  rw [digitsOf_toDigits, ofDigits, List.foldl_map]
  rwa [Nat.ofDigitChars_eq_foldl] at hnumber

/-! ### Signs -/

/-- A text is its sign and what follows it. -/
theorem exists_sign (cs : List Char) :
    ∃ sign, cs = sign ++ (takeSign cs).2 ∧ ∀ c ∈ sign, c = '-' ∨ c = '+' := by
  unfold takeSign
  split
  · exact ⟨['-'], rfl, List.forall_mem_singleton.2 (.inl rfl)⟩
  · exact ⟨['+'], rfl, List.forall_mem_singleton.2 (.inr rfl)⟩
  · exact ⟨[], rfl, nofun⟩

/-- A character of a text is its sign or stands behind it. -/
theorem sign_or_mem {cs : List Char} {c : Char} (h : c ∈ cs) : (c = '-' ∨ c = '+') ∨ c ∈ (takeSign cs).2 := by
  obtain ⟨sign, hcs, hsign⟩ := exists_sign cs
  rw [hcs] at h
  exact (List.mem_append.1 h).imp (hsign c) id

theorem takeSign_of_digits {cs : List Char} (h : ∀ c ∈ cs, isDigit c = true) : (takeSign cs).2 = cs := by
  unfold takeSign
  split
  · exact absurd (h '-' (List.mem_cons_self ..)) (by decide)
  · exact absurd (h '+' (List.mem_cons_self ..)) (by decide)
  · rfl

/-! ### Integers -/

/-- An integer numeral has digits behind its sign. -/
theorem isIntegerNumeral_iff {cs : List Char} :
    isIntegerNumeral cs = true ↔ (takeSign cs).2 ≠ [] ∧ ∀ c ∈ (takeSign cs).2, isDigit c = true := by
  simp [isIntegerNumeral]

/-- The integer that a sign and digits write. -/
def integerOf (cs : List Char) : Int :=
  if (takeSign cs).1 then -(ofDigits 10 (digitsOf (takeSign cs).2) : Int) else ofDigits 10 (digitsOf (takeSign cs).2)

/-- **A separator anywhere makes a text no integer**, also among the blanks around it. -/
theorem readInt_of_isSeparator {s : String} {c : Char} (hc : c ∈ s.toList) (hsep : Text.IsSeparator c) :
    readInt s = .error (.malformed s) := by
  obtain ⟨before, after, hs, hbefore, hafter⟩ := Text.exists_around_trimOf Text.isNumeralBlank s.toList
  rw [readInt]
  cases hd : digitValues? (takeSign (Text.trimOf Text.isNumeralBlank s.toList)).2 with
  | none => simp only [hd]
  | some ds =>
    -- The separator would have to be a digit, an underscore or the sign.
    have houter {d : Char} (hd : Text.isNumeralBlank d = true) : d ≠ c :=
      fun hdc => (Text.isNumeralBlank_iff.1 hd).2 (hdc ▸ hsep)
    have hinner {d : Char} (hd : isDigit d = true ∨ d = '_') : d ≠ c := by
      rintro rfl
      rcases hd with hd | rfl
      · exact Bool.false_ne_true ((Text.isBlank_of_isDigit hd).symm.trans (Text.isBlank_of_isSeparator hsep))
      · revert hsep
        decide
    have hsigned {d : Char} (hd : d = '-' ∨ d = '+') : d ≠ c := by
      rintro rfl
      rcases hd with rfl | rfl
      all_goals
        revert hsep
        decide
    rw [hs, List.mem_append, List.mem_append] at hc
    rcases hc with hc | hc | hc
    · exact absurd rfl (houter (hbefore c hc))
    · rcases sign_or_mem hc with hc | hc
      · exact absurd rfl (hsigned hc)
      · exact absurd rfl (hinner (mem_of_digitValues? hd c hc))
    · exact absurd rfl (houter (hafter c hc))

theorem sign_or_isDigit {cs : List Char} (h : isIntegerNumeral cs = true) {c : Char} (hc : c ∈ cs) :
    (c = '-' ∨ c = '+') ∨ isDigit c = true :=
  (sign_or_mem hc).imp_right ((isIntegerNumeral_iff.1 h).2 c)

theorem isBlank_of_mem_isIntegerNumeral {cs : List Char} (h : isIntegerNumeral cs = true) {c : Char} (hc : c ∈ cs) :
    Text.isBlank c = false := by
  rcases sign_or_isDigit h hc with (rfl | rfl) | hc
  · decide
  · decide
  · exact Text.isBlank_of_isDigit hc

/-- **Sign and digits between blanks without separators are read**, if there are not too many. -/
theorem readInt_of_isIntegerNumeral {s : String} (h : isIntegerNumeral (Text.trimmed s.toList) = true)
    (hsep : ∀ c ∈ s.toList, ¬Text.IsSeparator c) :
    readInt s = if maxDigits < (takeSign (Text.trimmed s.toList)).2.length
      then .error (.tooLong (takeSign (Text.trimmed s.toList)).2.length)
      else .ok (integerOf (Text.trimmed s.toList)) := by
  obtain ⟨before, after, hs, hbefore, hafter⟩ := Text.exists_around_trimOf Text.isBlank s.toList
  have hbare {c : Char} (hc : c ∈ Text.trimmed s.toList) : Text.isNumeralBlank c = false :=
    Text.isNumeralBlank_of_not_isBlank (isBlank_of_mem_isIntegerNumeral h hc)
  have hblank {c : Char} (hc : c ∈ s.toList) (hblank : Text.isBlank c = true) : Text.isNumeralBlank c = true :=
    Text.isNumeralBlank_iff.2 ⟨hblank, hsep c hc⟩
  have htrim : Text.trimOf Text.isNumeralBlank s.toList = Text.trimmed s.toList := by
    have hmem (c : Char) : c ∈ before ∨ c ∈ after → c ∈ s.toList := by
      rw [hs]
      simp only [List.mem_append]
      exact Or.imp_right .inr
    conv_lhs => rw [hs]
    exact Text.trimOf_around (fun c hc => hblank (hmem c (.inl hc)) (hbefore c hc))
      (fun c hc => hblank (hmem c (.inr hc)) (hafter c hc))
      (fun c hc => hbare (List.mem_of_mem_head? hc)) (fun c hc => hbare (List.mem_of_mem_getLast? hc))
  obtain ⟨hne, hdigits⟩ := isIntegerNumeral_iff.1 h
  rw [readInt]
  simp only [htrim, digitValues?_of_digits hne hdigits, boundedOfDigits, length_digitsOf hdigits, gt_iff_lt]
  by_cases hlong : maxDigits < (takeSign (Text.trimmed s.toList)).2.length
  · rw [if_pos hlong, if_pos hlong]
    rfl
  · rw [if_neg hlong, if_neg hlong, integerOf]
    cases (takeSign (Text.trimmed s.toList)).1 <;> rfl

/-! ### Decimals -/

/-- A sign, and digits with a point before, among or behind them. -/
def IsPointed (cs : List Char) : Prop :=
  ∃ whole fraction, (takeSign cs).2 = whole ++ '.' :: fraction ∧ whole ++ fraction ≠ [] ∧
    ∀ c ∈ whole ++ fraction, isDigit c = true

theorem isEmpty_of_append_ne_nil {cs ds : List Char} (h : cs ++ ds ≠ []) : (cs.isEmpty && ds.isEmpty) = false := by
  cases cs with
  | nil => exact List.isEmpty_eq_false_iff.2 h
  | cons c cs => rfl

theorem takeWhile_ne_point {whole : List Char} (h : ∀ c ∈ whole, isDigit c = true) (fraction : List Char) :
    (whole ++ '.' :: fraction).takeWhile (· != '.') = whole :=
  Text.takeWhile_append_stop (fun c hc => bne_iff_ne.2 (Text.ne_of_isDigit (h c hc) (by decide))) (by simp)

/-- **A decimal is read where it has digits with a point.** -/
theorem readFraction?_of_isPointed {cs : List Char} {whole fraction : List Char}
    (hbody : (takeSign cs).2 = whole ++ '.' :: fraction) (hne : whole ++ fraction ≠ [])
    (hdigits : ∀ c ∈ whole ++ fraction, isDigit c = true) :
    readFraction? cs = some (Binary64.ofScientific (takeSign cs).1 (ofDigits 10 (digitsOf (whole ++ fraction)))
      (-(fraction.length : Int))) := by
  obtain ⟨hwhole, hfraction⟩ := List.forall_mem_append.1 hdigits
  have hsome : (whole.isEmpty && fraction.isEmpty) = false := isEmpty_of_append_ne_nil hne
  rw [readFraction?]
  simp only [hbody, takeWhile_ne_point hwhole, List.drop_left, hsome, plainDigits?_of_digits hwhole,
    plainDigits?_of_digits hfraction, digitsOf_append, Option.bind_eq_bind, Option.bind_some,
    length_digitsOf hfraction]
  rfl

theorem readFraction?_isSome_iff {cs : List Char} : (∃ x, readFraction? cs = some x) ↔ IsPointed cs := by
  constructor
  · rintro ⟨x, hx⟩
    unfold readFraction? at hx
    dsimp only at hx
    split at hx
    · rename_i fraction hdrop
      split at hx
      · cases hx
      · rename_i hsome
        obtain ⟨ws, hws, hx⟩ := Option.bind_eq_some_iff.1 hx
        obtain ⟨fs, hfs, hx⟩ := Option.bind_eq_some_iff.1 hx
        refine ⟨_, fraction, ?_, fun hnil => hsome ?_,
          List.forall_mem_append.2 ⟨digits_of_plainDigits? hws, digits_of_plainDigits? hfs⟩⟩
        · rw [← hdrop]
          exact (List.prefix_iff_eq_append.1 (List.takeWhile_prefix _)).symm
        · rw [List.append_eq_nil_iff] at hnil
          rw [hnil.1, hnil.2]
          rfl
    · cases hx
  · rintro ⟨whole, fraction, hbody, hne, hdigits⟩
    exact ⟨_, readFraction?_of_isPointed hbody hne hdigits⟩

theorem sign_point_or_isDigit {cs : List Char} (h : IsPointed cs) {c : Char} (hc : c ∈ cs) :
    ((c = '-' ∨ c = '+') ∨ c = '.') ∨ isDigit c = true := by
  obtain ⟨whole, fraction, hbody, -, hdigits⟩ := h
  rcases sign_or_mem hc with hc | hc
  · exact .inl (.inl hc)
  · rw [hbody, List.mem_append, List.mem_cons] at hc
    rcases hc with hc | rfl | hc
    · exact .inr (hdigits c (List.mem_append_left _ hc))
    · exact .inl (.inr rfl)
    · exact .inr (hdigits c (List.mem_append_right _ hc))

/-- Nothing stands around a decimal that could be taken off it. -/
theorem isBlank_of_mem_isPointed {cs : List Char} (h : IsPointed cs) {c : Char} (hc : c ∈ cs) :
    Text.isBlank c = false := by
  rcases sign_point_or_isDigit h hc with ((rfl | rfl) | rfl) | hc
  · decide
  · decide
  · decide
  · exact Text.isBlank_of_isDigit hc

/-- **A sign and digits with a point are never refused as a decimal**, and both readings agree. -/
theorem readDecimal?_of_isPointed {cs : List Char} (h : IsPointed cs) :
    ∃ x, readDecimal? (String.ofList cs) = some x ∧ readFraction? cs = some x := by
  have hbare {c : Char} (hc : c ∈ cs) : Text.isNumeralBlank c = false :=
    Text.isNumeralBlank_of_not_isBlank (isBlank_of_mem_isPointed h hc)
  have htrim : Text.trimOf Text.isNumeralBlank cs = cs :=
    Text.trimOf_eq_self (fun c hc => hbare (List.mem_of_mem_head? hc))
      (fun c hc => hbare (List.mem_of_mem_getLast? hc))
  obtain ⟨whole, fraction, hbody, hne, hdigits⟩ := h
  obtain ⟨hwhole, hfraction⟩ := List.forall_mem_append.1 hdigits
  refine ⟨_, ?_, readFraction?_of_isPointed hbody hne hdigits⟩
  have hword (word : String) (hpoint : '.' ∉ word.toList) :
      (String.ofList ((whole ++ '.' :: fraction).map Char.toLower) == word) = false := by
    rw [beq_eq_false_iff_ne]
    rintro rfl
    rw [String.toList_ofList] at hpoint
    exact hpoint (List.mem_map.2 ⟨'.', List.mem_append_right _ (List.mem_cons_self ..), rfl⟩)
  have htake : (whole ++ '.' :: fraction).takeWhile isDigit = whole :=
    Text.takeWhile_append_stop hwhole (by simp; decide)
  have hsome : (whole.isEmpty && fraction.isEmpty) = false := isEmpty_of_append_ne_nil hne
  rw [readDecimal?, String.toList_ofList, htrim]
  simp only [hbody, hword "inf" (by decide), hword "infinity" (by decide), hword "nan" (by decide), htake,
    List.drop_left, List.takeWhile_eq_self_iff.2 hfraction, List.drop_length, hsome, plainDigits?_of_digits hdigits,
    readPower?]
  simp

end Decimal
end PageComposer
