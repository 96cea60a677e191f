/-
# Which integers are refused

| integer | refused |
| --- | --- |
| in base ten or sixty | with a part of more than 4300 digits |
| in base two or sixteen | with no digit behind the mark |
| in base eight | never |
-/

import PageComposer.Proofs.Files.Lookup
import PageComposer.Proofs.Markup.Numerals
import PageComposer.Proofs.Yaml.Notations

namespace PageComposer

namespace Text

/-- A separator ends the first piece. -/
theorem pieces_append_cons {separator : Char} {cs : List Char} (h : separator ∉ cs) (rest : List Char) :
    pieces separator (cs ++ separator :: rest) = cs :: pieces separator rest := by
  induction cs with
  | nil => rw [List.nil_append, pieces, if_pos (beq_self_eq_true _)]
  | cons c cs ih =>
    rw [List.mem_cons, not_or] at h
    have hc : ¬ (c == separator) = true := fun he => h.1 (beq_iff_eq.1 he).symm
    rw [List.cons_append, pieces, if_neg hc, ih h.2]

theorem length_pieces (separator : Char) (cs : List Char) :
    (pieces separator cs).length = cs.count separator + 1 := by
  induction cs with
  | nil => rfl
  | cons c cs ih =>
    unfold pieces
    by_cases hc : (c == separator) = true
    · rw [if_pos hc, List.length_cons, ih, beq_iff_eq.1 hc, List.count_cons_self]
    · rw [if_neg hc, List.count_cons_of_ne (fun he => hc (beq_iff_eq.2 he)), ← ih]
      split
      · rename_i hp
        exact absurd hp (pieces_ne_nil separator cs)
      · rename_i piece more hp
        rw [hp]
        rfl

theorem infix_of_mem_pieces {separator : Char} {cs p : List Char} (hp : p ∈ pieces separator cs) : p <:+: cs := by
  -- the first piece is the beginning of the text
  suffices h : ∃ first more, pieces separator cs = first :: more ∧ first <+: cs ∧ ∀ p ∈ more, p <:+: cs by
    obtain ⟨first, more, heq, hfirst, hmore⟩ := h
    rw [heq] at hp
    rcases List.mem_cons.1 hp with rfl | hp
    · exact hfirst.isInfix
    · exact hmore p hp
  clear hp
  induction cs with
  | nil => exact ⟨[], [], rfl, List.prefix_rfl, nofun⟩
  | cons c cs ih =>
    obtain ⟨first, more, heq, hfirst, hmore⟩ := ih
    have hbehind : ∀ p ∈ more, p <:+: c :: cs := fun p hp => (hmore p hp).trans (List.suffix_cons ..).isInfix
    unfold pieces
    rw [heq]
    split
    · exact ⟨[], first :: more, rfl, List.nil_prefix, List.forall_mem_cons.2
        ⟨hfirst.isInfix.trans (List.suffix_cons ..).isInfix, hbehind⟩⟩
    · exact ⟨c :: first, more, rfl, (List.cons_prefix_cons.2 ⟨rfl, hfirst⟩), hbehind⟩

end Text

namespace Yaml

open Markup (Gives LongNumeral)

/-! ### Digits -/

theorem isDigit_of_isAsciiDigit {c : Char} (h : Text.isAsciiDigit c = true) : Text.isDigit c = true :=
  Markup.digitValue?_isSome h

theorem Digits.isDigit {ds : List Char} (h : Digits ds) : ∀ c ∈ ds, Text.isDigit c = true :=
  fun c hc => isDigit_of_isAsciiDigit (h.2 c hc)

theorem colon_not_mem {ds : List Char} (h : ∀ c ∈ ds, Text.isAsciiDigit c = true) : ':' ∉ ds :=
  fun hmem => absurd (h _ hmem) (by decide)

theorem Digits.isIntegerNumeral {ds : List Char} (h : Digits ds) : Decimal.isIntegerNumeral ds = true := by
  rw [Decimal.isIntegerNumeral_iff, Decimal.takeSign_of_digits h.isDigit]
  exact ⟨h.1, h.isDigit⟩

theorem Digits.trimmed_eq {ds : List Char} (h : Digits ds) : Text.trimmed ds = ds :=
  Text.trimOf_eq_self (fun c hc => Text.isBlank_of_isDigit (h.isDigit c (List.mem_of_mem_head? hc)))
    fun c hc => Text.isBlank_of_isDigit (h.isDigit c (List.mem_of_mem_getLast? hc))

/-- Digits are read, unless there are too many. -/
theorem readPart_of_digits {ds : List Char} (h : Digits ds) {f : Fault} (hf : readPart (String.ofList ds) = .error f) :
    ∃ g, f = .numeral g ∧ LongNumeral ds g := by
  have htrim : Text.trimmed (String.ofList ds).toList = ds := by rw [String.toList_ofList, h.trimmed_eq]
  have hplain : ∀ c ∈ (String.ofList ds).toList, ¬ Text.IsSeparator c := by
    rw [String.toList_ofList]
    intro c hc hsep
    exact absurd ((Text.isBlank_of_isSeparator hsep).symm.trans (Text.isBlank_of_isDigit (h.isDigit c hc))) nofun
  have hread := Decimal.readInt_of_isIntegerNumeral (htrim.symm ▸ h.isIntegerNumeral) hplain
  rw [htrim, Decimal.takeSign_of_digits h.isDigit] at hread
  rw [readPart, hread] at hf
  split at hf
  · cases hf
  · rename_i g hg
    split at hg
    · rename_i hlong
      obtain rfl := Except.error.inj hf
      obtain rfl := Except.error.inj hg
      exact ⟨_, rfl, ds, List.infix_rfl, h.2, hlong, rfl⟩
    · cases hg

/-! ### Other bases -/

/-- A digit of a base, which is not taken for the mark of the base. -/
def IsDigitOf (base : Nat) (c : Char) : Prop :=
  (Decimal.digitIn? base c).isSome = true ∧ some c.toLower ≠ Decimal.baseMark base ∧ Text.isNumeralBlank c = false ∧
    c ≠ '-' ∧ c ≠ '+'

instance (base : Nat) (c : Char) : Decidable (IsDigitOf base c) := inferInstanceAs (Decidable (_ ∧ _))

theorem toNat_lt_of_le {c d : Char} (h : c ≤ d) (hd : d.toNat < 128) : c.toNat < 128 := Nat.lt_of_le_of_lt h hd

theorem isDigitOf_of_le {base : Nat} {top : Char} (htop : top.toNat < 128)
    (hascii : ∀ n < 128, ('0' ≤ Char.ofNat n && Char.ofNat n ≤ top) = true → IsDigitOf base (Char.ofNat n)) {c : Char}
    (h : ('0' ≤ c && c ≤ top) = true) : IsDigitOf base c := by
  have hle : c ≤ top := of_decide_eq_true (Bool.and_eq_true_iff.1 h).2
  exact Text.of_ascii (P := fun c => ('0' ≤ c && c ≤ top) = true → IsDigitOf base c) hascii (toNat_lt_of_le hle htop) h

theorem isDigitOf_octal {c : Char} (h : ('0' ≤ c && c ≤ '7') = true) : IsDigitOf 8 c :=
  isDigitOf_of_le (by decide) (by decide +kernel) h

theorem isDigitOf_binary {c : Char} (h : ('0' ≤ c && c ≤ '1') = true) : IsDigitOf 2 c :=
  isDigitOf_of_le (by decide) (by decide +kernel) h

theorem isDigitOf_hexadecimal {c : Char} (h : Text.isHexDigit c = true) : IsDigitOf 16 c := by
  have hascii : ∀ n < 128, Text.isHexDigit (Char.ofNat n) = true → IsDigitOf 16 (Char.ofNat n) := by decide +kernel
  have hlt : c.toNat < 128 := by
    simp only [Text.isHexDigit, Text.hexValue?, Text.isAsciiDigit, Bool.and_eq_true, decide_eq_true_eq] at h
    split at h
    · rename_i hc
      exact toNat_lt_of_le hc.2 (by decide)
    · split at h
      · rename_i hc
        exact toNat_lt_of_le hc.2 (by decide)
      · split at h
        · rename_i hc
          exact toNat_lt_of_le hc.2 (by decide)
        · cases h
  exact Text.of_ascii (P := fun c => Text.isHexDigit c = true → IsDigitOf 16 c) hascii hlt h

/-- A text that begins with no sign. -/
theorem takeSign_of_head {cs : List Char} (hminus : cs.head? ≠ some '-') (hplus : cs.head? ≠ some '+') :
    Decimal.takeSign cs = (false, cs) := by
  unfold Decimal.takeSign
  split
  · exact absurd rfl hminus
  · exact absurd rfl hplus
  · rfl

theorem mapM_digitIn? {base : Nat} {ds : List Char} (h : ∀ c ∈ ds, IsDigitOf base c) :
    ∃ vs, ds.mapM (Decimal.digitIn? base) = some vs ∧ vs.length = ds.length := by
  induction ds with
  | nil => exact ⟨[], rfl, rfl⟩
  | cons c ds ih =>
    rw [List.forall_mem_cons] at h
    obtain ⟨v, hv⟩ := Option.isSome_iff_exists.1 h.1.1
    obtain ⟨vs, hvs, hlength⟩ := ih h.2
    refine ⟨v :: vs, ?_, congrArg (· + 1) hlength⟩
    rw [List.mapM_cons, hv, hvs]
    rfl

/-- A number in another base is read, if it has a digit. -/
theorem readBase_of_digits {base : Nat} {ds : List Char} (hne : ds ≠ []) (h : ∀ c ∈ ds, IsDigitOf base c) :
    ∃ n, readBase base (String.ofList ds) = .ok n := by
  have htrim : Text.trimOf Text.isNumeralBlank ds = ds :=
    Text.trimOf_eq_self (fun c hc => (h c (List.mem_of_mem_head? hc)).2.2.1)
      fun c hc => (h c (List.mem_of_mem_getLast? hc)).2.2.1
  obtain ⟨vs, hvs, hlength⟩ := mapM_digitIn? h
  have hsome : vs ≠ [] := by
    rintro rfl
    exact hne (List.length_eq_zero_iff.1 hlength.symm)
  have hsign : Decimal.takeSign ds = (false, ds) := takeSign_of_head
    (fun hc => (h _ (List.mem_of_mem_head? hc)).2.2.2.1 rfl) fun hc => (h _ (List.mem_of_mem_head? hc)).2.2.2.2 rfl
  have hread : Decimal.readDigits? base (String.ofList ds) = some (Decimal.ofDigits base vs : Int) := by
    rw [Decimal.readDigits?, String.toList_ofList, htrim, hsign]
    dsimp only
    split
    · rename_i m rest
      have hm := (h m (List.mem_cons_of_mem _ (List.mem_cons_self ..))).2.1
      rw [if_neg (by simpa using hm), hvs]
      simp [hsome]
    · rw [hvs]
      simp [hsome]
  rw [readBase, hread]
  exact ⟨_, rfl⟩

theorem readBase_eq_error {base : Nat} {ds : List Char} {f : Fault} (h : ∀ c ∈ ds, IsDigitOf base c)
    (hf : readBase base (String.ofList ds) = .error f) : ds = [] ∧ f = .digits base "" := by
  cases ds with
  | nil => exact ⟨rfl, (Except.error.inj hf).symm⟩
  | cons d ds =>
    obtain ⟨n, hn⟩ := readBase_of_digits (List.cons_ne_nil d ds) h
    cases hn.symm.trans hf

/-! ### Base sixty -/

/-- What stands between the colons of a number in base sixty. -/
theorem mem_pieces_sixtieths {first tail : List Char} {groups : List (List Char)} (hfirst : Digits first)
    (hgroups : ∀ g ∈ groups, Digits g) (htail : ':' ∉ tail) :
    ∀ p ∈ Text.pieces ':' (first ++ sixtieths groups ++ tail), Digits p ∨ ∃ q, Digits q ∧ p = q ++ tail := by
  induction groups generalizing first with
  | nil =>
    have hnone : ':' ∉ first ++ tail := fun hmem => (List.mem_append.1 hmem).elim (colon_not_mem hfirst.2) htail
    rw [sixtieths, List.flatMap_nil, List.append_nil, Text.pieces_eq_singleton hnone]
    exact List.forall_mem_singleton.2 (.inr ⟨first, hfirst, rfl⟩)
  | cons g groups ih =>
    rw [List.forall_mem_cons] at hgroups
    have heq : first ++ sixtieths (g :: groups) ++ tail = first ++ ':' :: (g ++ sixtieths groups ++ tail) := by
      simp [sixtieths]
    rw [heq, Text.pieces_append_cons (colon_not_mem hfirst.2)]
    exact List.forall_mem_cons.2 ⟨.inl hfirst, ih hgroups.1 hgroups.2⟩

/-! ### Integers -/

/-- An integer without a mark of a base is written in base ten or sixty. -/
theorem magnitude_of_ne_zero {c : Char} (h : c ≠ '0') (rest : List Char) : magnitude (c :: rest) =
    if (c :: rest).contains ':' then do
      let parts ← (Text.split ':' (String.ofList (c :: rest))).mapM readPart
      return parts.foldl (fun n p => 60 * n + p) 0
    else readPart (String.ofList (c :: rest)) := by
  unfold magnitude
  split
  · rename_i heq
    cases heq
  all_goals first
    | rfl
    | rename_i heq
      exact absurd (List.cons.inj heq).1 h

/-- An integer with a zero in front is written in base eight. -/
theorem magnitude_of_octal {ds : List Char} (h : ∀ c ∈ ds, ('0' ≤ c && c ≤ '7') = true) :
    ∃ n, magnitude ('0' :: ds) = .ok n := by
  have hread := readBase_of_digits (List.cons_ne_nil '0' ds)
    (List.forall_mem_cons.2 ⟨by decide, fun c hc => isDigitOf_octal (h c hc)⟩)
  unfold magnitude
  split
  · rename_i heq
    cases heq
  · exact ⟨0, rfl⟩
  · rename_i rest heq
    obtain rfl := (List.cons.inj heq).2
    exact absurd (h 'b' (List.mem_cons_self ..)) (by decide)
  · rename_i rest heq
    obtain rfl := (List.cons.inj heq).2
    exact absurd (h 'x' (List.mem_cons_self ..)) (by decide)
  · exact hread
  · rename_i hzero
    exact absurd rfl (hzero ds)

/-- Parts of a text that are digits are refused for their number only. -/
theorem gives_parts {cs : List Char} (h : ∀ p ∈ Text.pieces ':' cs, Digits p) :
    Gives (fun f => ∃ g, f = .numeral g ∧ LongNumeral cs g) (fun _ => True)
      ((Text.split ':' (String.ofList cs)).mapM readPart) := by
  refine Gives.mapM fun part hpart => ?_
  rw [Text.split, String.toList_ofList] at hpart
  obtain ⟨p, hp, rfl⟩ := List.mem_map.1 hpart
  cases hread : readPart (String.ofList p) with
  | ok n => trivial
  | error e =>
    obtain ⟨g, he, hlong⟩ := readPart_of_digits (h p hp) hread
    exact ⟨g, he, hlong.mono (Text.infix_of_mem_pieces hp)⟩

/-- An integer in base ten or sixty is refused for too many digits in a row. -/
theorem gives_magnitude {c : Char} (hc : c ≠ '0') {rest : List Char}
    (h : ∀ p ∈ Text.pieces ':' (c :: rest), Digits p) :
    Gives (fun f => ∃ g, f = .numeral g ∧ LongNumeral (c :: rest) g) (fun _ => True) (magnitude (c :: rest)) := by
  rw [magnitude_of_ne_zero hc]
  split
  · exact Gives.bind (gives_parts h) fun _ _ => trivial
  · rename_i hcolon
    rw [List.contains_iff_mem] at hcolon
    rw [Text.pieces_eq_singleton hcolon] at h
    cases hread : readPart (String.ofList (c :: rest)) with
    | ok n => trivial
    | error e => exact readPart_of_digits (h _ (List.mem_singleton_self _)) hread

/-- **An integer is refused for too many digits, or as it has none behind a mark.** -/
theorem magnitude_eq_error {cs : List Char} {f : Fault} (h : IntegerBody cs) (hf : magnitude cs = .error f) :
    (∃ g, f = .numeral g ∧ LongNumeral cs g) ∨ cs = ['0', 'b'] ∧ f = .digits 2 "" ∨
      cs = ['0', 'x'] ∧ f = .digits 16 "" := by
  cases h with
  | octal digits =>
    obtain ⟨n, hn⟩ := magnitude_of_octal digits
    cases hn.symm.trans hf
  | binary digits =>
    obtain ⟨rfl, rfl⟩ := readBase_eq_error (fun c hc => isDigitOf_binary (digits c hc)) hf
    exact .inr (.inl ⟨rfl, rfl⟩)
  | hexadecimal digits =>
    obtain ⟨rfl, rfl⟩ := readBase_eq_error (fun c hc => isDigitOf_hexadecimal (digits c hc)) hf
    exact .inr (.inr ⟨rfl, rfl⟩)
  | decimal head digits further =>
    rename_i c first groups
    have hpieces : ∀ p ∈ Text.pieces ':' (c :: first ++ sixtieths groups), Digits p := by
      intro p hp
      rw [← List.append_nil (c :: first ++ sixtieths groups)] at hp
      obtain hp | ⟨q, hq, rfl⟩ := mem_pieces_sixtieths digits further List.not_mem_nil p hp
      · exact hp
      · rwa [List.append_nil]
    have hgives : Gives _ _ (magnitude (c :: first ++ sixtieths groups)) := gives_magnitude head hpieces
    rw [hf] at hgives
    exact .inl hgives

end Yaml
end PageComposer
