/-
# Which plain scalars make no value

A plain scalar is of the kind whose notation it has (`kindOf`), and nearly all make a value of it.  The rest:

| kind | refused |
| --- | --- |
| integer | more than 4300 digits one after the other; `0b` and `0x` without a digit |
| decimal | base sixty with 175 places or more |
| date | numbers that make no date, no time of day or no offset |
-/

import PageComposer.Proofs.Yaml.Decimals

namespace PageComposer
namespace Yaml

open Markup (Gives LongNumeral)

/-! ### Kinds -/

theorem eq_or_sign_cons (cs : List Char) :
    cs = afterSign cs ∨ cs = '-' :: afterSign cs ∨ cs = '+' :: afterSign cs := by
  unfold afterSign
  split
  · rename_i c rest
    split
    · rename_i hsign
      rcases Bool.or_eq_true_iff.1 hsign with hc | hc
      · exact .inr (.inl (by rw [beq_iff_eq.1 hc]))
      · exact .inr (.inr (by rw [beq_iff_eq.1 hc]))
    · exact .inl rfl
  · exact .inl rfl

theorem sign_or_mem_afterSign {cs : List Char} {c : Char} (h : c ∈ cs) : c = '-' ∨ c = '+' ∨ c ∈ afterSign cs := by
  obtain heq | heq | heq := eq_or_sign_cons cs
  · exact .inr (.inr (heq ▸ h))
  · rw [heq] at h
    exact (List.mem_cons.1 h).elim .inl fun h => .inr (.inr h)
  · rw [heq] at h
    exact (List.mem_cons.1 h).elim (fun h => .inr (.inl h)) fun h => .inr (.inr h)

theorem signedText_eq {s : String} (h : s.toList ≠ []) :
    ∃ negative, signedText s = .ok (negative, String.ofList (afterSign s.toList)) := by
  unfold signedText
  split
  · rename_i hnil
    exact absurd hnil h
  · rename_i rest hs
    exact ⟨true, by rw [hs]; rfl⟩
  · rename_i rest hs
    exact ⟨false, by rw [hs]; rfl⟩
  · rename_i hminus hplus
    have hsame : afterSign s.toList = s.toList := by
      cases hs : s.toList with
      | nil => rfl
      | cons c rest =>
        refine if_neg fun hsign => ?_
        rcases Bool.or_eq_true_iff.1 hsign with hc | hc
        · exact hminus rest (beq_iff_eq.1 hc ▸ hs)
        · exact hplus rest (beq_iff_eq.1 hc ▸ hs)
    exact ⟨false, by rw [hsame, String.ofList_toList]⟩

/-- What a plain scalar that has the notation of a kind makes no value for. -/
inductive Unmade (text : String) : Fault → Prop
  /-- An integer with too many digits. -/
  | long {f : Decimal.NumeralFault} (digits : LongNumeral (bare text.toList) f) : Unmade text (.numeral f)
  /-- The mark of base two, without a digit. -/
  | binary (mark : afterSign (bare text.toList) = ['0', 'b']) : Unmade text (.digits 2 "")
  /-- The mark of base sixteen, without a digit. -/
  | hexadecimal (mark : afterSign (bare text.toList) = ['0', 'x']) : Unmade text (.digits 16 "")
  /-- A decimal in base sixty with too many places. -/
  | places (colons : 174 ≤ text.toList.count ':') : Unmade text .placeValue
  /-- A date or time of day that is not in the calendar. -/
  | calendar {f : CalendarFault} (date : buildTimestamp text = .error (.calendar f)) : Unmade text (.calendar f)

/-- What the notation of a kind that can be refused is. -/
theorem form_of_kindOf (s : String) :
    kindOf s = "bool" ∧ isOneOf (["yes", "no", "true", "false", "on", "off"].flatMap spellings) s.toList = true ∨
      kindOf s = "float" ∧ isDecimal s.toList = true ∨ kindOf s = "int" ∧ isInteger s.toList = true ∨
      kindOf s = "timestamp" ∧ isTimestamp s.toList = true ∨
      kindOf s ∈ ["merge", "null", "value", "yaml", "str"] := by
  unfold kindOf
  extract_lets cs
  split
  · rename_i h
    exact .inl ⟨rfl, h⟩
  · split
    · rename_i h
      exact .inr (.inl ⟨rfl, h⟩)
    · split
      · rename_i h
        exact .inr (.inr (.inl ⟨rfl, h⟩))
      · split
        · exact .inr (.inr (.inr (.inr (by decide))))
        · split
          · exact .inr (.inr (.inr (.inr (by decide))))
          · split
            · rename_i h
              exact .inr (.inr (.inr (.inl ⟨rfl, h⟩)))
            · split
              · exact .inr (.inr (.inr (.inr (by decide))))
              · split
                · exact .inr (.inr (.inr (.inr (by decide))))
                · exact .inr (.inr (.inr (.inr (by decide))))

section
variable {text : String} {f : Fault} (hend : Unbroken text.toList)
include hend

/-- Every word for a truth value is one. -/
theorem buildBool_ne_error
    (h : isOneOf (["yes", "no", "true", "false", "on", "off"].flatMap spellings) text.toList = true) :
    buildBool text ≠ .error f := by
  have hwords : ∀ w ∈ ["yes", "no", "true", "false", "on", "off"].flatMap spellings, (buildBool w).isOk = true := by
    decide +kernel
  obtain ⟨w, hw, htext⟩ := mem_of_isOneOf hend h
  obtain rfl := String.toList_inj.1 htext
  intro hf
  have hok := hwords _ hw
  rw [hf] at hok
  cases hok

theorem unmade_of_buildInt (h : isInteger text.toList = true) (hf : buildInt text = .error f) : Unmade text f := by
  obtain ⟨hhead, hbody⟩ := integerBody_of_isInteger hend h
  have hafter : afterSign (bare text.toList) = bare (afterSign text.toList) := afterSign_bare hhead
  have hne : (unspaced text).toList ≠ [] := by
    rw [toList_unspaced]
    intro hnil
    rw [hnil] at hafter
    exact hbody.ne_nil hafter.symm
  obtain ⟨negative, hsign⟩ := signedText_eq hne
  rw [buildInt, hsign, toList_unspaced, hafter] at hf
  cases hm : magnitude (bare (afterSign text.toList)) with
  | ok n =>
    simp only [bind, Except.bind, String.toList_ofList, hm] at hf
    cases hf
  | error e =>
    simp only [bind, Except.bind, String.toList_ofList, hm] at hf
    obtain rfl := Except.error.inj hf
    obtain ⟨g, rfl, hlong⟩ | ⟨hmark, rfl⟩ | ⟨hmark, rfl⟩ := magnitude_eq_error hbody hm
    · exact .long (hlong.mono (hafter ▸ (afterSign_suffix _).isInfix))
    · exact .binary (hafter.trans hmark)
    · exact .hexadecimal (hafter.trans hmark)

omit hend in
theorem unmade_of_decimalBody (hhead : (afterSign text.toList).head? ≠ some '_')
    (hbody : DecimalBody (bare (afterSign text.toList))) (hf : buildFloat text = .error f) : Unmade text f := by
  have hafter : afterSign (bare text.toList) = bare (afterSign text.toList) := afterSign_bare hhead
  rw [← hafter] at hbody
  have hascii : ∀ c ∈ bare text.toList, c.toNat < 128 := by
    intro c hc
    obtain rfl | rfl | hc := sign_or_mem_afterSign hc
    · decide
    · decide
    · exact hbody.toNat_lt c hc
  have hlower : Text.lower (unspaced text) = String.ofList ((bare text.toList).map Char.toLower) := by
    rw [Text.lower, toList_unspaced, Text.lowered_of_lt hascii]
  have hne : (Text.lower (unspaced text)).toList ≠ [] := by
    rw [hlower, String.toList_ofList]
    intro hnil
    rw [List.map_eq_nil_iff.1 hnil] at hbody
    exact hbody.ne_nil rfl
  obtain ⟨negative, hsign⟩ := signedText_eq hne
  rw [hlower, String.toList_ofList, afterSign_toLower hascii, ← hlower] at hsign
  rw [buildFloat, hsign] at hf
  cases hm : decimalMagnitude (String.ofList ((afterSign (bare text.toList)).map Char.toLower)) with
  | ok x =>
    simp only [bind, Except.bind, hm] at hf
    cases hf
  | error e =>
    simp only [bind, Except.bind, hm] at hf
    obtain rfl := Except.error.inj hf
    obtain ⟨rfl, hcount⟩ := decimalMagnitude_eq_error hbody.toLower.1 hm
    have hbare : (afterSign (bare text.toList)).Sublist text.toList :=
      (afterSign_suffix _).sublist.trans List.filter_sublist
    exact .places (hcount.trans (hbody.toLower.2.trans (hbare.count_le ':')))

theorem unmade_of_buildFloat (h : isDecimal text.toList = true) (hf : buildFloat text = .error f) : Unmade text f := by
  obtain ⟨hhead, hbody⟩ | ⟨w, hw, htext⟩ | ⟨w, hw, htext⟩ := decimalBody_of_isDecimal hend h
  · exact unmade_of_decimalBody hhead hbody hf
  · have hwords : ∀ w ∈ [".inf", ".Inf", ".INF"], ∀ cs ∈ [w.toList, '-' :: w.toList, '+' :: w.toList],
        (buildFloat (String.ofList cs)).isOk = true := by decide +kernel
    have hmem : text.toList ∈ [w.toList, '-' :: w.toList, '+' :: w.toList] := by
      rw [← htext]
      simpa using eq_or_sign_cons text.toList
    have hok := hwords w hw _ hmem
    rw [String.ofList_toList, hf] at hok
    cases hok
  · have hwords : ∀ w ∈ [".nan", ".NaN", ".NAN"], (buildFloat w).isOk = true := by decide +kernel
    obtain rfl := String.toList_inj.1 htext
    have hok := hwords _ hw
    rw [hf] at hok
    cases hok

end

/-! ### Dates -/

theorem gives_buildDate (y m d : Nat) : Gives (fun f => ∃ g, f = .calendar g) (fun _ => True) (buildDate y m d) := by
  unfold buildDate
  split
  · trivial
  · exact ⟨_, rfl⟩

theorem gives_buildZone (cs : List Char) : Gives (fun f => ∃ g, f = .calendar g) (fun _ => True) (buildZone cs) := by
  unfold buildZone
  split
  · trivial
  · split
    · dsimp only
      split
      · exact ⟨_, rfl⟩
      · trivial
    · trivial
  · trivial

/-- The numbers of a date are refused by the calendar only. -/
theorem gives_buildTimestamp {s : String} (h : isTimestamp s.toList = true) :
    Gives (fun f => ∃ g, f = .calendar g) (fun _ => True) (buildTimestamp s) := by
  unfold buildTimestamp
  extract_lets cs
  -- the year, the month and the day
  split
  split
  split
  split
  · exact (gives_buildDate _ _ _).map fun _ _ => trivial
  · -- the hour, the minute, the second and its fraction
    split
    split
    split
    split
    refine (gives_buildZone _).bind fun offset _ => (gives_buildDate _ _ _).bind fun date _ => ?_
    dsimp only
    split
    · exact ⟨_, rfl⟩
    · split
      · exact ⟨_, rfl⟩
      · split
        · exact ⟨_, rfl⟩
        · trivial

theorem eq_error_of_map {α : Type} {r : Except Fault α} {g : α → Value} {f : Fault}
    (h : some (r.map g) = some (.error f)) : r = .error f := by
  cases r with
  | ok a => cases h
  | error e => exact congrArg _ (Except.error.inj (Option.some.inj h))

/-- **A plain scalar of a kind makes a value, but for too many digits or none, or a date that is none.** -/
theorem unmade_of_buildScalar? {text : String} {f : Fault} (hend : Unbroken text.toList)
    (h : buildScalar? (kindOf text) text = some (.error f)) : Unmade text f := by
  obtain ⟨hkind, hform⟩ | ⟨hkind, hform⟩ | ⟨hkind, hform⟩ | ⟨hkind, hform⟩ | hkind := form_of_kindOf text
  · rw [hkind] at h
    exact absurd (eq_error_of_map h) (buildBool_ne_error hend hform)
  · rw [hkind] at h
    exact unmade_of_buildFloat hend hform (eq_error_of_map h)
  · rw [hkind] at h
    exact unmade_of_buildInt hend hform (eq_error_of_map h)
  · rw [hkind] at h
    have htime : buildTimestamp text = .error f := Option.some.inj h
    have hgives := gives_buildTimestamp hform
    rw [htime] at hgives
    obtain ⟨g, rfl⟩ := hgives
    exact .calendar htime
  · generalize kindOf text = kind at h hkind
    simp only [List.mem_cons, List.not_mem_nil, or_false] at hkind
    rcases hkind with rfl | rfl | rfl | rfl | rfl <;> cases h

end Yaml
end PageComposer
