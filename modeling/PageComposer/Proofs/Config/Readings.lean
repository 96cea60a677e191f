/-
# Which values of variables are converted

The value of a variable is told by its form without the blanks around it, and converted then.

| form | conversion is given | refused |
| --- | --- | --- |
| truth value | the text without blanks | never |
| sign and digits | the text with its blanks | with a separator in it, or more than 4300 digits |
| sign and digits with a point | the text without blanks | never |
| braces or brackets | the text without blanks | never; what cannot be read stays a text |
| any other | | never |

The two grammars part at the integers alone (`readSetting_eq_error_iff`): the test takes the information separators for
blanks and does not count digits, the conversion does neither. Where no value is refused, a variable is at fault for its
name only, or for what the schema says of its value (`settings_converted`).

A list or a map that is written as JSON is read as it again, with any blanks around it (`readSetting_write`): no reading
that comes first begins with a bracket.
-/

import PageComposer.Proofs.Config.Faults
import PageComposer.Proofs.Decimal.Conversion
import PageComposer.Proofs.Json.ReadBack

namespace PageComposer
namespace Config

/-! ### Truth values -/

/-- Characters that a truth value in any case may begin with, or that have no small form of their own. -/
def truthStarts : List Char := ['t', 'T', 'f', 'F', Text.capitalSigma]

/-- A text that begins otherwise than the words for truth values do is none. -/
theorem readBool?_eq_none {cs : List Char} (h : ∀ c ∈ (Text.trimmed cs).head?, c ∉ truthStarts) : readBool? cs = none := by
  have hword (word : String) (hstart : word.toList.head? = some 't' ∨ word.toList.head? = some 'f') :
      (String.ofList (Text.lowered (Text.trimmed cs)) == word) = false := by
    rw [beq_eq_false_iff_ne]
    rintro rfl
    rw [String.toList_ofList] at hstart
    cases hcs : Text.trimmed cs with
    | nil =>
      rw [hcs] at hstart
      exact hstart.elim nofun nofun
    | cons c rest =>
      have hc : c ∉ truthStarts := h c (by rw [hcs]; rfl)
      have hsigma : c ≠ Text.capitalSigma := by
        rintro rfl
        exact hc (by decide)
      obtain ⟨tail, htail⟩ := Text.lowered_cons hsigma rest
      obtain ⟨d, more, hlower⟩ := List.exists_cons_of_ne_nil (Text.lowerChar_ne_nil c)
      rw [hcs, htail, hlower, List.cons_append, List.head?_cons, Option.some.injEq, Option.some.injEq] at hstart
      exact hc (List.mem_append_left [Text.capitalSigma] (Text.mem_of_lowerChar hlower hstart))
  rw [readBool?]
  simp only [hword "true" (.inl rfl), hword "false" (.inr rfl)]
  rfl

theorem not_mem_truthStarts {c : Char} (h : ((c = '-' ∨ c = '+') ∨ c = '.') ∨ Text.isDigit c = true) :
    c ∉ truthStarts := by
  have hsigns : ('-' ∉ truthStarts ∧ '+' ∉ truthStarts) ∧ '.' ∉ truthStarts := by decide
  have hdigits : truthStarts.any Text.isDigit = false := by decide
  rcases h with ((rfl | rfl) | rfl) | h
  · exact hsigns.1.1
  · exact hsigns.1.2
  · exact hsigns.2
  · exact fun hmem => List.any_eq_false.1 hdigits c hmem h

/-! ### Numerals -/

variable {s : String}

/-- An integer numeral is converted as an integer. -/
theorem readSetting_of_isIntegerNumeral (h : Decimal.isIntegerNumeral (Text.trimmed s.toList) = true) :
    readSetting s = (Decimal.readInt s).map .int := by
  have hbool : readBool? s.toList = none := readBool?_eq_none fun c hc =>
    not_mem_truthStarts ((Decimal.sign_or_isDigit h (List.mem_of_mem_head? hc)).imp_left .inl)
  rw [readSetting]
  simp only [hbool, h, if_true]

/-- Digits with a point are no integer numeral. -/
theorem isIntegerNumeral_of_isPointed {cs : List Char} (h : Decimal.IsPointed cs) :
    Decimal.isIntegerNumeral cs = false := by
  obtain ⟨whole, fraction, hbody, -, -⟩ := h
  rw [Bool.eq_false_iff]
  intro hinteger
  have hpoint := (Decimal.isIntegerNumeral_iff.1 hinteger).2 '.' (by
    rw [hbody]
    exact List.mem_append_right _ (List.mem_cons_self ..))
  revert hpoint
  decide

/-- A decimal is converted as one. -/
theorem readSetting_of_isPointed (h : Decimal.IsPointed (Text.trimmed s.toList)) {x : Decimal.Binary64}
    (hx : Decimal.readFraction? (Text.trimmed s.toList) = some x) : readSetting s = .ok (.float x) := by
  have hbool : readBool? s.toList = none := readBool?_eq_none fun c hc =>
    not_mem_truthStarts (Decimal.sign_point_or_isDigit h (List.mem_of_mem_head? hc))
  rw [readSetting]
  simp only [hbool, isIntegerNumeral_of_isPointed h, hx]
  rfl

/-- The values that look like an integer and are refused as one. -/
inductive Refused (s : String) : Decimal.NumeralFault → Prop
  | separated {c : Char} (numeral : Decimal.isIntegerNumeral (Text.trimmed s.toList) = true) (held : c ∈ s.toList)
      (separator : Text.IsSeparator c) : Refused s (.malformed s)
  | long (numeral : Decimal.isIntegerNumeral (Text.trimmed s.toList) = true)
      (plain : ∀ c ∈ s.toList, ¬Text.IsSeparator c)
      (long : Decimal.maxDigits < (Decimal.takeSign (Text.trimmed s.toList)).2.length) :
      Refused s (.tooLong (Decimal.takeSign (Text.trimmed s.toList)).2.length)

/-- Digits alone are refused if there are too many. -/
theorem refused_of_digits {cs : List Char} (h : ∀ c ∈ cs, Text.isDigit c = true)
    (hlong : Decimal.maxDigits < cs.length) : Refused (String.ofList cs) (.tooLong cs.length) := by
  have hblank {c : Char} (hc : c ∈ cs) : Text.isBlank c = false := Text.isBlank_of_isDigit (h c hc)
  have htrim : Text.trimmed cs = cs := Text.trimOf_eq_self (fun c hc => hblank (List.mem_of_mem_head? hc))
    (fun c hc => hblank (List.mem_of_mem_getLast? hc))
  have hsign : (Decimal.takeSign cs).2 = cs := Decimal.takeSign_of_digits h
  have hnumeral : Decimal.isIntegerNumeral cs = true := by
    rw [Decimal.isIntegerNumeral_iff, hsign]
    exact ⟨List.ne_nil_of_length_pos (by omega), h⟩
  have hrefused := Refused.long (s := String.ofList cs)
  rw [String.toList_ofList, htrim, hsign] at hrefused
  exact hrefused hnumeral
    (fun c hc hsep => Bool.false_ne_true ((hblank hc).symm.trans (Text.isBlank_of_isSeparator hsep))) hlong

/-- **A value is refused exactly if it is an integer numeral with a separator in it, or with too many digits.** -/
theorem readSetting_eq_error_iff {f : Decimal.NumeralFault} : readSetting s = .error f ↔ Refused s f := by
  constructor
  · intro h
    cases hnumeral : Decimal.isIntegerNumeral (Text.trimmed s.toList) with
    | false =>
      rw [readSetting] at h
      dsimp only at h
      rw [hnumeral] at h
      split at h
      · cases h
      · rw [if_neg Bool.false_ne_true] at h
        split at h
        · cases h
        · split at h <;> cases h
    | true =>
      rw [readSetting_of_isIntegerNumeral hnumeral] at h
      by_cases hsep : ∃ c ∈ s.toList, Text.IsSeparator c
      · obtain ⟨c, hc, hsep⟩ := hsep
        rw [Decimal.readInt_of_isSeparator hc hsep] at h
        obtain rfl := Except.error.inj h
        exact .separated hnumeral hc hsep
      · have hplain : ∀ c ∈ s.toList, ¬Text.IsSeparator c := fun c hc hc' => hsep ⟨c, hc, hc'⟩
        rw [Decimal.readInt_of_isIntegerNumeral hnumeral hplain] at h
        split at h
        · rename_i hlong
          obtain rfl := Except.error.inj h
          exact .long hnumeral hplain hlong
        · cases h
  · rintro (⟨numeral, held, separator⟩ | ⟨numeral, plain, long⟩)
    · rw [readSetting_of_isIntegerNumeral numeral, Decimal.readInt_of_isSeparator held separator]
      rfl
    · rw [readSetting_of_isIntegerNumeral numeral, Decimal.readInt_of_isIntegerNumeral numeral plain, if_pos long]
      rfl

/-- Every value that is not refused is converted. -/
theorem exists_readSetting_iff : (∃ v, readSetting s = .ok v) ↔ ∀ f, ¬Refused s f := by
  constructor
  · rintro ⟨v, hv⟩ f hf
    rw [readSetting_eq_error_iff.2 hf] at hv
    cases hv
  · intro h
    cases hread : readSetting s with
    | ok v => exact ⟨v, rfl⟩
    | error f => exact absurd (readSetting_eq_error_iff.1 hread) (h f)

/-- An integer numeral that is not refused is converted to the integer that its digits write. -/
theorem readSetting_of_not_refused (h : Decimal.isIntegerNumeral (Text.trimmed s.toList) = true)
    (hrefused : ∀ f, ¬Refused s f) :
    readSetting s = .ok (.int (Decimal.integerOf (Text.trimmed s.toList))) := by
  have hplain : ∀ c ∈ s.toList, ¬Text.IsSeparator c := fun c hc hsep => hrefused _ (.separated h hc hsep)
  rw [readSetting_of_isIntegerNumeral h, Decimal.readInt_of_isIntegerNumeral h hplain,
    if_neg fun hlong => hrefused _ (.long h hplain hlong)]
  rfl

/-! ### Settings -/

/-- Variables end in an empty piece only where one has a name that is no key path. -/
theorem keyPath?_of_applyVariables {es : Entries} {vars : Variables} {name : String}
    (h : (applyVariables es vars).fault? = some (.emptyPiece name)) :
    ∃ v ∈ vars, name = String.ofList (v.1.toList.drop variableStart.length) ∧ keyPath? name = none := by
  induction vars generalizing es with
  | nil => cases h
  | cons v rest ih =>
    have hrest {es : Entries} (h : (applyVariables es rest).fault? = some (.emptyPiece name)) :
        ∃ v' ∈ v :: rest, name = String.ofList (v'.1.toList.drop variableStart.length) ∧ keyPath? name = none :=
      (ih h).imp fun v' hv => ⟨List.mem_cons_of_mem _ hv.1, hv.2⟩
    unfold applyVariables at h
    dsimp only at h
    split at h
    · exact hrest h
    · split at h
      · rename_i hpath
        obtain rfl := VariableFault.emptyPiece.inj (Option.some.inj h)
        exact ⟨v, List.mem_cons_self .., rfl, hpath⟩
      · split at h
        · cases h
        · exact hrest h

/-- What settings are not loaded for where no value of a variable is refused. -/
theorem loadSettings_of_not_refused {w : FileTree} {vars : Variables} {root : Path} {validate : Bool} {f : Fault}
    (hrefused : ∀ v ∈ settingVariables vars, ∀ g, ¬Refused v.2 g)
    (h : (loadSettings w vars root validate).settings = .error f) :
    projectSettings w root = .error f ∨
      (∃ name, f = .variable (.emptyPiece name) ∧ ∃ v ∈ settingVariables vars,
        name = String.ofList (v.1.toList.drop variableStart.length) ∧ keyPath? name = none) ∨
      validate = true ∧ ∃ text, f = .invalid text := by
  unfold loadSettings at h
  cases hp : projectSettings w root with
  | error g =>
    rw [hp] at h
    obtain rfl := Except.error.inj h
    exact .inl rfl
  | ok es =>
    rw [hp] at h
    dsimp only at h
    split at h
    · rename_i g hg
      obtain rfl := Except.error.inj h
      cases g with
      | emptyPiece name => exact .inr (.inl ⟨name, rfl, keyPath?_of_applyVariables hg⟩)
      | numeral g =>
        obtain ⟨v, hv, hread⟩ := readSetting_of_applyVariables hg
        exact absurd (readSetting_eq_error_iff.1 hread) (hrefused v hv g)
    · split at h
      · rename_i hvalidate
        unfold checked at h
        split at h
        · cases h
        · obtain rfl := Except.error.inj h
          exact .inr (.inr ⟨hvalidate, _, rfl⟩)
      · cases h

/-- **Values of variables are converted**, but for the integers that are refused. What looks like a decimal is always
accepted as one. Where no value is refused, settings that the project file allows are refused only for the name of a
variable, or by the check against the schema. -/
theorem settings_converted (s : String) (w : FileTree) (vars : Variables) (root : Path) (validate : Bool) :
    ((∃ v, readSetting s = .ok v) ↔ ∀ f, ¬Refused s f) ∧ (∀ f, readSetting s = .error f ↔ Refused s f) ∧
    (Decimal.isIntegerNumeral (Text.trimmed s.toList) = true → (∀ f, ¬Refused s f) →
      readSetting s = .ok (.int (Decimal.integerOf (Text.trimmed s.toList)))) ∧
    (Decimal.IsPointed (Text.trimmed s.toList) →
      ∃ x, Decimal.readDecimal? (Text.trim s) = some x ∧ readSetting s = .ok (.float x)) ∧
    ((∀ v ∈ settingVariables vars, ∀ g, ¬Refused v.2 g) → ∀ f, (loadSettings w vars root validate).settings = .error f →
      projectSettings w root = .error f ∨
        (∃ name, f = .variable (.emptyPiece name) ∧ ∃ v ∈ settingVariables vars,
          name = String.ofList (v.1.toList.drop variableStart.length) ∧ keyPath? name = none) ∨
        validate = true ∧ ∃ text, f = .invalid text) := by
  refine ⟨exists_readSetting_iff, fun f => readSetting_eq_error_iff, readSetting_of_not_refused, fun h => ?_,
    fun hrefused f => loadSettings_of_not_refused hrefused⟩
  obtain ⟨x, hx, hfraction⟩ := Decimal.readDecimal?_of_isPointed h
  exact ⟨x, hx, readSetting_of_isPointed h hfraction⟩

/-- A five before a separator is an integer numeral without the blanks around it and is not converted, and neither are
4301 ones. -/
theorem separator_not_converted :
    Decimal.isIntegerNumeral (Text.trimmed "5\x1c".toList) = true ∧ (¬∃ v, readSetting "5\x1c" = .ok v) ∧
      ¬∃ v, readSetting (String.ofList (List.replicate 4301 '1')) = .ok v := by
  have hfive : Decimal.isIntegerNumeral (Text.trimmed "5\x1c".toList) = true := by decide
  have hseparated : Refused "5\x1c" (.malformed "5\x1c") :=
    .separated hfive (c := Char.ofNat 0x1c) (by decide) (by decide)
  have hones : Refused (String.ofList (List.replicate 4301 '1')) (.tooLong (List.replicate 4301 '1').length) := by
    refine refused_of_digits (fun c hc => ?_) (by rw [List.length_replicate]; decide)
    rw [List.eq_of_mem_replicate hc]
    decide
  exact ⟨hfive, fun h => exists_readSetting_iff.1 h _ hseparated, fun h => exists_readSetting_iff.1 h _ hones⟩

/-! ### JSON -/

/-- The brackets of JSON. -/
def brackets : List (Char × Char) := [('[', ']'), ('\x7b', '\x7d')]

/-- No other reading begins with a bracket, so JSON between brackets is read as it. -/
theorem readSetting_of_brackets {o c : Char} {v : Value} (hbrackets : (o, c) ∈ brackets)
    (hhead : (Text.trimmed s.toList).head? = some o) (hlast : (Text.trimmed s.toList).getLast? = some c)
    (hread : Json.read? (Text.trim s) = some v) : readSetting s = .ok v := by
  have hmem : o ∈ Text.trimmed s.toList := List.mem_of_mem_head? hhead
  have hopening : ∀ b ∈ brackets, b.1 ∉ truthStarts ∧ ¬(((b.1 = '-' ∨ b.1 = '+') ∨ b.1 = '.') ∨ Text.isDigit b.1 = true) := by
    decide
  obtain ⟨htruth, hnumeral⟩ := hopening _ hbrackets
  have hbool : readBool? s.toList = none := readBool?_eq_none fun d hd => by
    obtain rfl := Option.some.inj (hhead.symm.trans hd)
    exact htruth
  have hinteger : Decimal.isIntegerNumeral (Text.trimmed s.toList) = false := by
    rw [Bool.eq_false_iff]
    exact fun h => hnumeral ((Decimal.sign_or_isDigit h hmem).imp_left .inl)
  have hdecimal : Decimal.readFraction? (Text.trimmed s.toList) = none := by
    rw [Option.eq_none_iff_forall_ne_some]
    exact fun x hx => hnumeral (Decimal.sign_point_or_isDigit (Decimal.readFraction?_isSome_iff.1 ⟨x, hx⟩) hmem)
  have henclosed : (isEnclosed '\x7b' '\x7d' (Text.trimmed s.toList) || isEnclosed '[' ']' (Text.trimmed s.toList)) =
      true := by
    simp only [isEnclosed, hhead, hlast]
    rcases List.mem_cons.1 hbrackets with h | h
    · obtain ⟨rfl, rfl⟩ := Prod.mk.inj h
      decide
    · obtain ⟨rfl, rfl⟩ := Prod.mk.inj (List.mem_singleton.1 h)
      decide
  rw [Text.trim] at hread
  rw [readSetting]
  simp only [hbool, hinteger, hdecimal, henclosed, hread]
  rfl

/-- **A list or a map that is written as JSON is read back**, its entries in their order, with any indent and between
any blanks. -/
theorem readSetting_write {v : Value} (hv : Json.Carried v)
    (hshape : (∃ items, v = .list items) ∨ ∃ es, v = .map es) (indent : Option Int) {before after : String}
    (hbefore : ∀ c ∈ before.toList, Text.isBlank c = true) (hafter : ∀ c ∈ after.toList, Text.isBlank c = true) :
    ∃ text, Json.write indent v = .ok text ∧ readSetting (before ++ text ++ after) = .ok v := by
  obtain ⟨text, hwrite, hshown⟩ := hv.kept indent 0
  refine ⟨text, hwrite, ?_⟩
  obtain ⟨o, c, hbrackets, hhead, hlast⟩ : ∃ o c, (o, c) ∈ brackets ∧ text.toList.head? = some o ∧
      text.toList.getLast? = some c := by
    rcases hshape with h | h
    · exact ⟨'[', ']', by decide, Json.ends_of_write hwrite (.inl ⟨h, rfl, rfl⟩)⟩
    · exact ⟨'\x7b', '\x7d', by decide, Json.ends_of_write hwrite (.inr ⟨h, rfl, rfl⟩)⟩
  have hbare : ∀ b ∈ brackets, Text.isBlank b.1 = false ∧ Text.isBlank b.2 = false := by decide
  obtain ⟨ho, hc⟩ := hbare _ hbrackets
  have htrim : Text.trimmed (before ++ text ++ after).toList = text.toList := by
    rw [String.toList_append, String.toList_append, List.append_assoc]
    refine Text.trimOf_around hbefore hafter (fun d hd => ?_) fun d hd => ?_
    · obtain rfl := Option.some.inj (hhead.symm.trans hd)
      exact ho
    · obtain rfl := Option.some.inj (hlast.symm.trans hd)
      exact hc
  refine readSetting_of_brackets hbrackets (htrim ▸ hhead) (htrim ▸ hlast) ?_
  rw [Text.trim, htrim, String.ofList_toList]
  exact hshown.read?

/-- Settings with a list, an empty map, and texts that need escapes. -/
def escapedSettings : Value :=
  .map [(.text "k\"\n", .list [.int (-120), .text "\x1f é 😀", .null, .bool true]), (.text "", .map [])]

theorem escapedSettings_read_back : Json.Carried escapedSettings ∧
    ∃ text, Json.write (some 2) escapedSettings = .ok text ∧
      readSetting ("\x1c\n" ++ text ++ " ") = .ok escapedSettings := by
  have hitems : ∀ v ∈ [.int (-120), .text "\x1f é 😀", .null, .bool true], Json.Carried v := by
    simp only [List.forall_mem_cons]
    exact ⟨.int (by decide), .text _, .null, .bool true, nofun⟩
  have hcarried : Json.Carried escapedSettings := .map (by simp)
    (List.forall_mem_cons.2 ⟨.list hitems, List.forall_mem_singleton.2 (.map nofun nofun (by decide))⟩) (by decide)
  exact ⟨hcarried, readSetting_write hcarried (.inr ⟨_, rfl⟩) (some 2) (List.all_eq_true.1 rfl) (List.all_eq_true.1 rfl)⟩

end Config
end PageComposer
