/-
# Which decimals are refused

A decimal is read in small letters.  Digits with a point, and the parts of a number in base sixty, are never refused
(`readDecimal_of_pointed`, `readDecimal_of_digits`).  A number in base sixty is refused for its 175th place, whose value
is no finite number (`ofNat_place_ne_infinite`).
-/

import PageComposer.Proofs.Config.KeyPaths
import PageComposer.Proofs.Yaml.Integers

namespace PageComposer
namespace Yaml

/-! ### Decimals -/

theorem isNumeralBlank_of_digit {c : Char} (h : Text.isAsciiDigit c = true) : Text.isNumeralBlank c = false :=
  Text.isNumeralBlank_of_not_isBlank (Text.isBlank_of_isDigit (isDigit_of_isAsciiDigit h))

theorem IsExponent.readPower {cs : List Char} (h : IsExponent cs) : ∃ n, Decimal.readPower? cs = some n := by
  obtain rfl | ⟨e, s, ds, rfl, he, hs, hds⟩ := h
  · exact ⟨0, rfl⟩
  · have hletter : (e == 'e' || e == 'E') = true := by simpa using he
    have hsome : ds.isEmpty = false := List.isEmpty_eq_false_iff.2 hds.1
    have hplain := Decimal.plainDigits?_of_digits hds.isDigit
    rw [Decimal.readPower?, if_pos hletter]
    obtain rfl | rfl := hs
    · simp [Decimal.takeSign, hsome, hplain]
    · simp [Decimal.takeSign, hsome, hplain]

theorem IsExponent.not_digit {cs : List Char} (h : IsExponent cs) : ∀ c ∈ cs.head?, Text.isDigit c = false := by
  obtain rfl | ⟨e, s, ds, rfl, rfl | rfl, -, -⟩ := h
  · nofun
  · intro c hc
    obtain rfl := Option.some.inj hc
    decide
  · intro c hc
    obtain rfl := Option.some.inj hc
    decide

theorem IsExponent.not_blank {cs : List Char} (h : IsExponent cs) : ∀ c ∈ cs, Text.isNumeralBlank c = false := by
  obtain rfl | ⟨e, s, ds, rfl, he, hs, hds⟩ := h
  · nofun
  · refine List.forall_mem_cons.2 ⟨?_, List.forall_mem_cons.2 ⟨?_, fun c hc => isNumeralBlank_of_digit (hds.2 c hc)⟩⟩
    · obtain rfl | rfl := he <;> decide
    · obtain rfl | rfl := hs <;> decide

theorem IsExponent.colon_not_mem {cs : List Char} (h : IsExponent cs) : ':' ∉ cs := by
  obtain rfl | ⟨e, s, ds, rfl, he, hs, hds⟩ := h
  · exact List.not_mem_nil
  · simp only [List.mem_cons, not_or]
    refine ⟨?_, ?_, Yaml.colon_not_mem hds.2⟩
    · obtain rfl | rfl := he <;> decide
    · obtain rfl | rfl := hs <;> decide

/-- A text is read as a decimal by its parts. -/
theorem readDecimal_of_parts {cs whole : List Char} (hblank : ∀ c ∈ cs, Text.isNumeralBlank c = false)
    (hsign : Decimal.takeSign cs = (false, cs)) (hwhole : cs.takeWhile Text.isDigit = whole)
    (hrest : cs.drop whole.length = [] ∧ Digits whole ∨ ∃ fraction tail, cs.drop whole.length = '.' :: (fraction ++ tail) ∧
      Digits (whole ++ fraction) ∧ (∀ c ∈ fraction, Text.isDigit c = true) ∧ IsExponent tail) :
    ∃ x, readDecimal (String.ofList cs) = .ok x := by
  have htrim : Text.trimOf Text.isNumeralBlank cs = cs :=
    Text.trimOf_eq_self (fun c hc => hblank c (List.mem_of_mem_head? hc))
      fun c hc => hblank c (List.mem_of_mem_getLast? hc)
  suffices h : ∃ x, Decimal.readDecimal? (String.ofList cs) = some x by
    obtain ⟨x, hx⟩ := h
    exact ⟨x, by rw [readDecimal, hx]⟩
  unfold Decimal.readDecimal?
  rw [String.toList_ofList, htrim, hsign]
  dsimp only
  split
  · exact ⟨_, rfl⟩
  · split
    · exact ⟨_, rfl⟩
    · rw [hwhole]
      obtain ⟨hend, hdigits⟩ | ⟨fraction, tail, hdrop, hdigits, hfraction, htail⟩ := hrest
      · have hsome : whole.isEmpty = false := List.isEmpty_eq_false_iff.2 hdigits.1
        have hplain := Decimal.plainDigits?_of_digits hdigits.isDigit
        simp [hend, hsome, hplain, Decimal.readPower?]
      · have htake : (fraction ++ tail).takeWhile Text.isDigit = fraction :=
          Text.takeWhile_append_stop hfraction htail.not_digit
        have hsome := Decimal.isEmpty_of_append_ne_nil hdigits.1
        have hplain := Decimal.plainDigits?_of_digits hdigits.isDigit
        obtain ⟨n, hn⟩ := htail.readPower
        simp only [hdrop, htake, List.drop_left, hsome, hplain, hn]
        simp

theorem readDecimal_of_digits {ds : List Char} (h : Digits ds) : ∃ x, readDecimal (String.ofList ds) = .ok x := by
  have hsign : Decimal.takeSign ds = (false, ds) := takeSign_of_head
    (fun hc => absurd (h.2 _ (List.mem_of_mem_head? hc)) (by decide))
    fun hc => absurd (h.2 _ (List.mem_of_mem_head? hc)) (by decide)
  exact readDecimal_of_parts (fun c hc => isNumeralBlank_of_digit (h.2 c hc)) hsign
    (List.takeWhile_eq_self_iff.2 h.isDigit) (.inl ⟨List.drop_length, h⟩)

theorem readDecimal_of_pointed {whole fraction exponent : List Char} (h : Digits (whole ++ fraction))
    (hexponent : IsExponent exponent) : ∃ x, readDecimal (String.ofList (whole ++ '.' :: fraction ++ exponent)) = .ok x := by
  obtain ⟨hwhole, hfraction⟩ := List.forall_mem_append.1 h.2
  have heq : whole ++ '.' :: fraction ++ exponent = whole ++ '.' :: (fraction ++ exponent) := by simp
  rw [heq]
  have hhead : ∀ c, Text.isAsciiDigit c = false → c ≠ '.' →
      (whole ++ '.' :: (fraction ++ exponent)).head? ≠ some c := by
    intro c hc hpoint he
    cases whole with
    | nil => exact hpoint (Option.some.inj he).symm
    | cons d whole =>
      obtain rfl := Option.some.inj he
      exact Bool.false_ne_true (hc.symm.trans (hwhole d (List.mem_cons_self ..)))
  have htake : (whole ++ '.' :: (fraction ++ exponent)).takeWhile Text.isDigit = whole :=
    Text.takeWhile_append_stop (fun c hc => isDigit_of_isAsciiDigit (hwhole c hc)) fun c hc => by
      obtain rfl := Option.some.inj hc
      decide
  refine readDecimal_of_parts ?_ (takeSign_of_head (hhead _ (by decide) (by decide)) (hhead _ (by decide) (by decide)))
    htake (.inr ⟨fraction, exponent, List.drop_left, h, fun c hc => isDigit_of_isAsciiDigit (hfraction c hc), hexponent⟩)
  exact List.forall_mem_append.2 ⟨fun c hc => isNumeralBlank_of_digit (hwhole c hc), List.forall_mem_cons.2
    ⟨by decide, List.forall_mem_append.2 ⟨fun c hc => isNumeralBlank_of_digit (hfraction c hc), hexponent.not_blank⟩⟩⟩

/-! ### Places of base sixty -/

/-- The first 174 places have finite values. -/
theorem ofNat_place_ne_infinite : ∀ k < 174, ∀ negative, Decimal.Binary64.ofNat (60 ^ k) ≠ .infinite negative := by
  decide +kernel

theorem sumParts_of_le {parts : List Decimal.Binary64} {k : Nat} (h : parts.length + k ≤ 174) (sum : Decimal.Binary64) :
    ∃ x, sumParts parts (60 ^ k) sum = .ok x := by
  induction parts generalizing k sum with
  | nil => exact ⟨sum, rfl⟩
  | cons x parts ih =>
    rw [List.length_cons] at h
    unfold sumParts
    split
    · rename_i negative hplace
      exact absurd hplace (ofNat_place_ne_infinite k (by omega) negative)
    · rw [← Nat.pow_succ]
      exact ih (by omega) _

theorem sumParts_eq_error {parts : List Decimal.Binary64} {base : Nat} {sum : Decimal.Binary64} {f : Fault}
    (h : sumParts parts base sum = .error f) : f = .placeValue := by
  induction parts generalizing base sum with
  | nil => cases h
  | cons x parts ih =>
    unfold sumParts at h
    split at h
    · exact (Except.error.inj h).symm
    · exact ih h

theorem mapM_readDecimal {ps : List (List Char)} (h : ∀ p ∈ ps, ∃ x, readDecimal (String.ofList p) = .ok x) :
    ∃ xs, (ps.map String.ofList).mapM readDecimal = .ok xs ∧ xs.length = ps.length := by
  induction ps with
  | nil => exact ⟨[], rfl, rfl⟩
  | cons p ps ih =>
    rw [List.forall_mem_cons] at h
    obtain ⟨x, hx⟩ := h.1
    obtain ⟨xs, hxs, hlength⟩ := ih h.2
    refine ⟨x :: xs, ?_, congrArg (· + 1) hlength⟩
    rw [List.map_cons, List.mapM_cons, hx, hxs]
    rfl

/-- A decimal in base ten has no colon, and in base sixty only numbers between its colons. -/
theorem DecimalBody.pieces {cs : List Char} (h : DecimalBody cs) :
    ∀ p ∈ Text.pieces ':' cs, ∃ x, readDecimal (String.ofList p) = .ok x := by
  cases h with
  | pointed digits power =>
    rename_i whole fraction exponent
    obtain ⟨hwhole, hfraction⟩ := List.forall_mem_append.1 digits.2
    have hcolon : ':' ∉ whole ++ '.' :: fraction ++ exponent := by
      simp only [List.mem_append, List.mem_cons, not_or]
      exact ⟨⟨colon_not_mem hwhole, by decide, colon_not_mem hfraction⟩, power.colon_not_mem⟩
    rw [Text.pieces_eq_singleton hcolon]
    exact List.forall_mem_singleton.2 (readDecimal_of_pointed digits power)
  | sixties digits further behind =>
    rename_i first fraction groups
    have htail : ':' ∉ '.' :: fraction := by
      intro hmem
      rcases List.mem_cons.1 hmem with he | hmem
      · cases he
      · exact colon_not_mem behind hmem
    intro p hp
    obtain hp | ⟨q, hq, rfl⟩ := mem_pieces_sixtieths digits further htail p hp
    · exact readDecimal_of_digits hp
    · have hwhole : Digits (q ++ fraction) :=
        ⟨List.append_ne_nil_of_left_ne_nil hq.1 _, List.forall_mem_append.2 ⟨hq.2, behind⟩⟩
      have hread := readDecimal_of_pointed hwhole (.inl rfl)
      rwa [List.append_nil] at hread

/-- **A decimal is refused only for the number of its places in base sixty.** -/
theorem decimalMagnitude_eq_error {cs : List Char} {f : Fault} (h : DecimalBody cs)
    (hf : decimalMagnitude (String.ofList cs) = .error f) : f = .placeValue ∧ 174 ≤ cs.count ':' := by
  have hpieces := h.pieces
  unfold decimalMagnitude at hf
  split at hf
  · cases hf
  · split at hf
    · cases hf
    · split at hf
      · obtain ⟨xs, hxs, hlength⟩ := mapM_readDecimal hpieces
        rw [Text.split, String.toList_ofList, hxs] at hf
        have hsum : sumParts xs.reverse 1 .zero = .error f := hf
        refine ⟨sumParts_eq_error hsum, ?_⟩
        by_contra hfew
        rw [Text.length_pieces] at hlength
        have hle : xs.reverse.length + 0 ≤ 174 := by
          rw [List.length_reverse]
          omega
        obtain ⟨x, hx⟩ := sumParts_of_le hle .zero
        cases hx.symm.trans hsum
      · rename_i hcolon
        rw [String.toList_ofList, List.contains_iff_mem] at hcolon
        rw [Text.pieces_eq_singleton hcolon] at hpieces
        obtain ⟨x, hx⟩ := hpieces _ (List.mem_singleton_self _)
        cases hx.symm.trans hf

/-! ### Small letters -/

theorem toNat_lt_of_isAsciiDigit {c : Char} (h : Text.isAsciiDigit c = true) : c.toNat < 128 := by
  simp only [Text.isAsciiDigit, Bool.and_eq_true, decide_eq_true_eq] at h
  exact toNat_lt_of_le h.2 (by decide)

theorem toLower_digits {ds : List Char} (h : ∀ c ∈ ds, Text.isAsciiDigit c = true) : ds.map Char.toLower = ds := by
  have hdigit : ∀ n < 128, Text.isAsciiDigit (Char.ofNat n) = true → (Char.ofNat n).toLower = Char.ofNat n := by
    decide +kernel
  refine (List.map_congr_left fun c hc => ?_).trans (List.map_id' ds)
  exact Text.of_ascii (P := fun c => Text.isAsciiDigit c = true → c.toLower = c) hdigit
    (toNat_lt_of_isAsciiDigit (h c hc)) (h c hc)

theorem IsExponent.toLower {cs : List Char} (h : IsExponent cs) : IsExponent (cs.map Char.toLower) := by
  obtain rfl | ⟨e, s, ds, rfl, he, hs, hds⟩ := h
  · exact .inl rfl
  · rw [List.map_cons, List.map_cons, toLower_digits hds.2]
    refine .inr ⟨_, _, ds, rfl, .inl ?_, ?_, hds⟩
    · obtain rfl | rfl := he <;> rfl
    · obtain rfl | rfl := hs
      · exact .inl rfl
      · exact .inr rfl

theorem IsExponent.toNat_lt {cs : List Char} (h : IsExponent cs) : ∀ c ∈ cs, c.toNat < 128 := by
  obtain rfl | ⟨e, s, ds, rfl, he, hs, hds⟩ := h
  · nofun
  · refine List.forall_mem_cons.2 ⟨?_, List.forall_mem_cons.2 ⟨?_, fun c hc => toNat_lt_of_isAsciiDigit (hds.2 c hc)⟩⟩
    · obtain rfl | rfl := he <;> decide
    · obtain rfl | rfl := hs <;> decide

theorem toLower_sixtieths {groups : List (List Char)} (h : ∀ g ∈ groups, Digits g) :
    (sixtieths groups).map Char.toLower = sixtieths groups := by
  rw [sixtieths, List.map_flatMap]
  refine List.flatMap_congr fun g hg => ?_
  rw [List.map_cons, toLower_digits (h g hg).2]
  rfl

theorem toNat_lt_of_mem_sixtieths {groups : List (List Char)} (h : ∀ g ∈ groups, Digits g) :
    ∀ c ∈ sixtieths groups, c.toNat < 128 := by
  intro c hc
  obtain ⟨g, hg, hc⟩ := List.mem_flatMap.1 hc
  rcases List.mem_cons.1 hc with rfl | hc
  · decide
  · exact toNat_lt_of_isAsciiDigit ((h g hg).2 c hc)

/-- A decimal stays one in small letters, and its colons stay. -/
theorem DecimalBody.toLower {cs : List Char} (h : DecimalBody cs) :
    DecimalBody (cs.map Char.toLower) ∧ (cs.map Char.toLower).count ':' ≤ cs.count ':' := by
  cases h with
  | pointed digits power =>
    obtain ⟨hwhole, hfraction⟩ := List.forall_mem_append.1 digits.2
    rw [List.map_append, List.map_append, List.map_cons, toLower_digits hwhole, toLower_digits hfraction]
    refine ⟨.pointed digits power.toLower, ?_⟩
    simp only [List.count_append, List.count_eq_zero_of_not_mem power.toLower.colon_not_mem]
    exact Nat.le_add_right _ _
  | sixties digits further behind =>
    rw [List.map_append, List.map_append, List.map_cons, toLower_digits digits.2, toLower_digits behind,
      toLower_sixtieths further]
    exact ⟨.sixties digits further behind, Nat.le_refl _⟩

theorem DecimalBody.toNat_lt {cs : List Char} (h : DecimalBody cs) : ∀ c ∈ cs, c.toNat < 128 := by
  cases h with
  | pointed digits power =>
    obtain ⟨hwhole, hfraction⟩ := List.forall_mem_append.1 digits.2
    exact List.forall_mem_append.2 ⟨List.forall_mem_append.2 ⟨fun c hc => toNat_lt_of_isAsciiDigit (hwhole c hc),
      List.forall_mem_cons.2 ⟨by decide, fun c hc => toNat_lt_of_isAsciiDigit (hfraction c hc)⟩⟩, power.toNat_lt⟩
  | sixties digits further behind =>
    exact List.forall_mem_append.2 ⟨List.forall_mem_append.2 ⟨fun c hc => toNat_lt_of_isAsciiDigit (digits.2 c hc),
      toNat_lt_of_mem_sixtieths further⟩,
      List.forall_mem_cons.2 ⟨by decide, fun c hc => toNat_lt_of_isAsciiDigit (behind c hc)⟩⟩

theorem DecimalBody.ne_nil {cs : List Char} (h : DecimalBody cs) : cs ≠ [] := by
  cases h <;> simp

theorem IntegerBody.ne_nil {cs : List Char} (h : IntegerBody cs) : cs ≠ [] := by
  cases h <;> simp

/-- A sign stays what it is in small letters. -/
theorem afterSign_toLower {cs : List Char} (h : ∀ c ∈ cs, c.toNat < 128) :
    afterSign (cs.map Char.toLower) = (afterSign cs).map Char.toLower := by
  have hascii : ∀ n < 128, ((Char.ofNat n).toLower == '-' || (Char.ofNat n).toLower == '+') =
      (Char.ofNat n == '-' || Char.ofNat n == '+') := by decide +kernel
  cases cs with
  | nil => rfl
  | cons c rest =>
    have hc := Text.of_ascii (P := fun c => (c.toLower == '-' || c.toLower == '+') = (c == '-' || c == '+')) hascii
      (h c (List.mem_cons_self ..))
    rw [List.map_cons, afterSign, hc, afterSign]
    split <;> rfl

end Yaml
end PageComposer
