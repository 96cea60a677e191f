/-
# Literals that are read back

A literal is read back with any text behind it, where that text cannot go on with the literal (`Stops`).

| literal | written | read back |
| --- | --- | --- |
| text | `textLiteral` | always (`readText_written`), surrogate pairs as one character |
| integer | its digits with the sign | with at most 4300 digits (`readValue_int`) |
| `null`, `true`, `false` | the word | always |
-/

import Mathlib.Data.List.Basic
import PageComposer.Json.Reader
import PageComposer.Json.Writer
import PageComposer.Proofs.Decimal.Conversion
import PageComposer.Proofs.Text.Codecs

namespace PageComposer
namespace Json

/-! ### UTF-16 units -/

theorem hexValue?_digitChar {d : Nat} (h : d < 16) : Text.hexValue? d.digitChar = some d := by
  have hall : ∀ d < 16, Text.hexValue? d.digitChar = some d := by decide
  exact hall d h

/-- The last digit comes behind those of the number without it. -/
theorem hexDigits_succ {width : Nat} (hwidth : 0 < width) (n : Nat) :
    Text.hexDigits (width + 1) n = Text.hexDigits width (n / 16) ++ [(n % 16).digitChar] := by
  by_cases h : n < 16
  · obtain ⟨width, rfl⟩ := Nat.exists_eq_succ_of_ne_zero (Nat.ne_of_gt hwidth)
    rw [Text.hexDigits, Text.hexDigits, Nat.toDigits_of_lt_base h, Nat.div_eq_of_lt h, Nat.mod_eq_of_lt h,
      Nat.toDigits_zero]
    simp [List.replicate_succ']
  · rw [Text.hexDigits, Text.hexDigits, Nat.toDigits_of_base_le (by decide) (Nat.le_of_not_lt h)]
    simp

/-- A unit is written in four digits. -/
theorem hexDigits_four {n : Nat} (h : n < 0x10000) : Text.hexDigits 4 n =
    [(n / 16 / 16 / 16).digitChar, (n / 16 / 16 % 16).digitChar, (n / 16 % 16).digitChar, (n % 16).digitChar] := by
  have hfirst : Text.hexDigits 1 (n / 16 / 16 / 16) = [(n / 16 / 16 / 16).digitChar] := by
    rw [Text.hexDigits, Nat.toDigits_of_lt_base (by omega)]
    rfl
  rw [hexDigits_succ (by decide), hexDigits_succ (by decide), hexDigits_succ (by decide), hfirst]
  rfl

/-- **A unit is read back from its digits.** -/
theorem readUnit?_hexDigits {n : Nat} (h : n < 0x10000) (rest : List Char) :
    readUnit? (Text.hexDigits 4 n ++ rest) = some (n, rest) := by
  rw [hexDigits_four h]
  simp only [List.cons_append, List.nil_append, readUnit?, hexValue?_digitChar (show n / 16 / 16 / 16 < 16 by omega),
    hexValue?_digitChar (Nat.mod_lt _ (show 0 < 16 by decide)), Option.bind_eq_bind, Option.bind_some, Option.pure_def,
    Option.some.injEq, Prod.mk.injEq, and_true]
  omega

/-! ### Texts -/

/-- A unit of the first plane is read as its character. -/
theorem readText_unit {c : Char} (h : c.toNat < 0x10000) (fuel : Nat) (tail : List Char) :
    readText (fuel + 1) (unitEscape c.toNat ++ tail) = (readText fuel tail).map fun r => (c :: r.1, r.2) := by
  have hvalid := Text.toNat_valid c
  have hchar : charOf c.toNat = c := by
    rw [charOf, if_neg (by simp only [Bool.and_eq_true, decide_eq_true_eq]; omega), Char.ofNat_toNat]
  rw [unitEscape, List.cons_append, List.cons_append, readText, readUnit?_hexDigits h]
  simp only [Option.bind_eq_bind, Option.bind_some]
  rw [if_neg (by simp only [Bool.and_eq_true, decide_eq_true_eq]; omega), hchar]
  cases readText fuel tail <;> rfl

/-- A high and a low unit are read as one character. -/
theorem readText_pair {high low : Nat} (hhigh : 0xd800 ≤ high ∧ high < 0xdc00) (hlow : 0xdc00 ≤ low ∧ low < 0xe000)
    (fuel : Nat) (tail : List Char) :
    readText (fuel + 1) (unitEscape high ++ (unitEscape low ++ tail)) = (readText fuel tail).map fun r =>
      (Char.ofNat (0x10000 + (high - 0xd800) * 0x400 + (low - 0xdc00)) :: r.1, r.2) := by
  have hisHigh : (0xd800 ≤ high && high < 0xdc00) = true := by
    simp only [hhigh, Bool.and_eq_true, decide_eq_true_eq, and_self]
  have hisLow : (0xdc00 ≤ low && low < 0xe000) = true := by
    simp only [hlow, Bool.and_eq_true, decide_eq_true_eq, and_self]
  rw [unitEscape, unitEscape, List.cons_append, List.cons_append, readText, readUnit?_hexDigits (by omega)]
  simp only [Option.bind_eq_bind, Option.bind_some, hisHigh, if_true, List.cons_append,
    readUnit?_hexDigits (show low < 0x10000 by omega), hisLow]
  cases readText fuel tail <;> rfl

/-- A character beyond the first plane is read back from its two units. -/
theorem readText_units {c : Char} (h : 0x10000 ≤ c.toNat) (fuel : Nat) (tail : List Char) :
    readText (fuel + 1) (unitEscape (0xd800 + (c.toNat - 0x10000) / 0x400) ++
      (unitEscape (0xdc00 + (c.toNat - 0x10000) % 0x400) ++ tail)) =
      (readText fuel tail).map fun r => (c :: r.1, r.2) := by
  have hvalid := Text.toNat_valid c
  have hnumber : 0x10000 + (0xd800 + (c.toNat - 0x10000) / 0x400 - 0xd800) * 0x400 +
      (0xdc00 + (c.toNat - 0x10000) % 0x400 - 0xdc00) = c.toNat := by omega
  rw [readText_pair (by omega) (by omega), hnumber, Char.ofNat_toNat]

/-- A character with an escape of its own is read back from it. -/
theorem readText_simple {c d : Char} (hd : simpleEscape? d = some c) (hu : d ≠ 'u') (fuel : Nat) (tail : List Char) :
    readText (fuel + 1) ('\\' :: d :: tail) = (readText fuel tail).map fun r => (c :: r.1, r.2) := by
  rw [readText, hd]
  · cases readText fuel tail <;> rfl
  · exact hu

/-- A character that needs no escape is read as it is. -/
theorem readText_plain {c : Char} (hprintable : 32 ≤ c.toNat) (hquote : c ≠ '"') (hslash : c ≠ '\\') (fuel : Nat)
    (tail : List Char) : readText (fuel + 1) (c :: tail) = (readText fuel tail).map fun r => (c :: r.1, r.2) := by
  rw [readText, if_neg (Nat.not_lt.2 hprintable)]
  · cases readText fuel tail <;> rfl
  · exact hquote
  · exact fun _ h => absurd h hslash
  · exact fun _ _ h => absurd h hslash
  · exact fun h => absurd h hslash

/-- The forms that a character has in a text. -/
inductive Form (c : Char) : List Char → Prop
  | simple {d : Char} (escape : simpleEscape? d = some c) (marked : d ≠ 'u') : Form c ['\\', d]
  | plain (printable : 32 ≤ c.toNat) (quote : c ≠ '"') (slash : c ≠ '\\') : Form c [c]
  | unit (bound : c.toNat < 0x10000) : Form c (unitEscape c.toNat)
  | units (bound : 0x10000 ≤ c.toNat) : Form c (unitEscape (0xd800 + (c.toNat - 0x10000) / 0x400) ++
      unitEscape (0xdc00 + (c.toNat - 0x10000) % 0x400))

theorem form_escapedChar (c : Char) : Form c (escapedChar c) := by
  unfold escapedChar
  split
  · rename_i h
    rcases Bool.or_eq_true_iff.1 h with h | h
    all_goals
      obtain rfl := eq_of_beq h
      exact .simple rfl (by decide)
  rename_i hspecial
  iterate 5
    split
    · obtain rfl := eq_of_beq ‹_›
      exact .simple rfl (by decide)
  rw [Bool.or_eq_true, beq_iff_eq, beq_iff_eq, not_or] at hspecial
  dsimp only
  split
  · rename_i hprintable
    simp only [Bool.and_eq_true, decide_eq_true_eq] at hprintable
    exact .plain hprintable.1 hspecial.1 hspecial.2
  · split
    · rename_i hbound
      exact .unit hbound
    · rename_i hbound
      exact .units (Nat.not_lt.1 hbound)

/-- **One character is read back from its form.** -/
theorem Form.readText {c : Char} {form : List Char} (h : Form c form) (fuel : Nat) (tail : List Char) :
    readText (fuel + 1) (form ++ tail) = (readText fuel tail).map fun r => (c :: r.1, r.2) := by
  cases h with
  | simple escape marked => exact readText_simple escape marked fuel tail
  | plain printable quote slash => exact readText_plain printable quote slash fuel tail
  | unit bound => exact readText_unit bound fuel tail
  | units bound =>
    rw [List.append_assoc]
    exact readText_units bound fuel tail

theorem Form.ne_nil {c : Char} {form : List Char} (h : Form c form) : form ≠ [] := by
  cases h with
  | simple | plain | unit => exact List.cons_ne_nil _ _
  | units => exact List.append_ne_nil_of_left_ne_nil (List.cons_ne_nil _ _) _

/-- **A text is read back from between its quotes.** -/
theorem readText_written {cs : List Char} {fuel : Nat} (h : cs.length < fuel) (rest : List Char) :
    readText fuel (cs.flatMap escapedChar ++ '"' :: rest) = some (cs, rest) := by
  induction cs generalizing fuel with
  | nil =>
    obtain ⟨fuel, rfl⟩ := Nat.exists_eq_succ_of_ne_zero (Nat.ne_of_gt h)
    rfl
  | cons c cs ih =>
    obtain ⟨fuel, rfl⟩ := Nat.exists_eq_succ_of_ne_zero (Nat.ne_zero_of_lt h)
    rw [List.flatMap_cons, List.append_assoc, (form_escapedChar c).readText, ih (Nat.lt_of_succ_lt_succ h)]
    rfl

theorem length_le_flatMap (cs : List Char) : cs.length ≤ (cs.flatMap escapedChar).length := by
  induction cs with
  | nil => exact Nat.le_refl 0
  | cons c cs ih =>
    have hsome := List.length_pos_iff.2 (form_escapedChar c).ne_nil
    rw [List.flatMap_cons, List.length_append, List.length_cons]
    omega

/-! ### Numerals -/

/-- The text goes on with nothing that belongs to a number. -/
def Stops (rest : List Char) : Prop :=
  ∀ c ∈ rest.head?, Text.isAsciiDigit c = false ∧ c ≠ '.' ∧ c ≠ 'e' ∧ c ≠ 'E'

theorem Stops.readFractionDigits {rest : List Char} (h : Stops rest) : readFractionDigits rest = ([], rest) := by
  unfold Json.readFractionDigits
  split
  · exact absurd rfl (h '.' rfl).2.1
  · rfl

theorem Stops.readExponent? {rest : List Char} (h : Stops rest) : readExponent? rest = none := by
  unfold Json.readExponent?
  split
  · exact absurd rfl (h 'e' rfl).2.2.1
  · exact absurd rfl (h 'E' rfl).2.2.2
  · rfl

/-- Digits are read as an integer up to where they stop, if a zero does not lead others and there are not too many. -/
theorem readNumber_digits {ds rest : List Char} (negative : Bool) (hne : ds ≠ [])
    (hdigits : ∀ c ∈ ds, Text.isAsciiDigit c = true) (hzero : ds.head? = some '0' → ds = ['0'])
    (hlength : ds.length ≤ Decimal.maxDigits) (hrest : Stops rest) : readNumber negative (ds ++ rest) =
      some (.int (if negative then -(digitsValue ds : Int) else digitsValue ds), rest) := by
  have hwhile : (ds ++ rest).takeWhile Text.isAsciiDigit = ds :=
    Text.takeWhile_append_stop hdigits fun c hc => (hrest c hc).1
  obtain ⟨c, cs, rfl⟩ := List.exists_cons_of_ne_nil hne
  by_cases hc : c = '0'
  · subst hc
    obtain rfl : cs = [] := (List.cons.inj (hzero rfl)).2
    simp [readNumber, hrest.readFractionDigits, hrest.readExponent?, Decimal.maxDigits]
  · have hother : ∀ tail, c :: cs ++ rest ≠ '0' :: tail := fun tail heq => hc (List.cons.inj heq).1
    unfold readNumber
    dsimp only
    split
    · exact absurd ‹_› (hother _)
    · simp only [hwhile, List.isEmpty_cons, Bool.false_eq_true, if_false, Option.bind_eq_bind, Option.bind_some,
        List.drop_left, hrest.readFractionDigits, hrest.readExponent?, List.isEmpty_nil, if_true, gt_iff_lt,
        Nat.not_lt.2 hlength]
      rfl

/-- A zero leads no other digits. -/
theorem head_toDigits {n : Nat} (h : (Nat.toDigits 10 n).head? = some '0') : n = 0 := by
  induction n using Nat.strongRecOn with
  | ind n ih =>
    by_cases hn : n < 10
    · rw [Nat.toDigits_of_lt_base hn] at h
      have hall : ∀ n < 10, [n.digitChar].head? = some '0' → n = 0 := by decide
      exact hall n hn h
    · rw [Nat.toDigits_of_base_le (by decide) (Nat.le_of_not_lt hn),
        List.head?_append_of_ne_nil _ Nat.toDigits_ne_nil] at h
      have := ih (n / 10) (by omega) h
      omega

theorem digitsValue_toDigits (n : Nat) : digitsValue (Nat.toDigits 10 n) = n := by
  rw [digitsValue, ← Decimal.digitsOf_toDigits, Decimal.ofDigits_toDigits]

/-- **A natural number is read back from its digits.** -/
theorem readNumber_toDigits {n : Nat} {rest : List Char} (negative : Bool)
    (hlength : (Nat.toDigits 10 n).length ≤ Decimal.maxDigits) (hrest : Stops rest) :
    readNumber negative (Nat.toDigits 10 n ++ rest) = some (.int (if negative then -(n : Int) else n), rest) := by
  have hzero : (Nat.toDigits 10 n).head? = some '0' → Nat.toDigits 10 n = ['0'] := by
    intro h
    obtain rfl := head_toDigits h
    rfl
  rw [readNumber_digits negative Nat.toDigits_ne_nil (fun _ hc => (Decimal.digit_of_toDigits hc).1) hzero hlength hrest, digitsValue_toDigits]

/-! ### Values -/

/-- What opens neither a text nor a list nor a map is a word or a number. -/
theorem readValue_plain {c : Char} (hc : c ∉ ['"', '[', '\x7b']) (fuel : Nat) (rest : List Char) :
    readValue (fuel + 1) (c :: rest) = match readWord? (c :: rest) with
      | some r => some r
      | none => if c == '-' then readNumber true rest else readNumber false (c :: rest) := by
  have hother {d : Char} (hd : d ∈ ['"', '[', '\x7b']) : c = d → False := fun h => hc (h ▸ hd)
  rw [readValue]
  all_goals first | rfl | exact hother (by decide)

theorem readValue_word {word : List Char} {v : Value} {c : Char} {tail : List Char} (hword : word = c :: tail)
    (hc : c ∉ ['"', '[', '\x7b']) {rest : List Char} (hread : readWord? (word ++ rest) = some (v, rest)) (fuel : Nat) :
    readValue (fuel + 1) (word ++ rest) = some (v, rest) := by
  subst hword
  rw [List.cons_append] at hread ⊢
  rw [readValue_plain hc, hread]

theorem readValue_null (fuel : Nat) (rest : List Char) :
    readValue (fuel + 1) ("null".toList ++ rest) = some (.null, rest) :=
  readValue_word rfl (by decide) rfl fuel

theorem readValue_bool (b : Bool) (fuel : Nat) (rest : List Char) :
    readValue (fuel + 1) ((if b then "true" else "false").toList ++ rest) = some (.bool b, rest) := by
  cases b with
  | false => exact readValue_word rfl (by decide) rfl fuel
  | true => exact readValue_word rfl (by decide) rfl fuel

theorem readWord?_eq_none {cs : List Char} (h : ∀ w ∈ words, ¬w.1.toList <+: cs) : readWord? cs = none := by
  rw [readWord?, List.findSome?_eq_none_iff]
  intro w hw
  rw [after?, if_neg (by rw [List.isPrefixOf_iff_prefix]; exact h w hw)]
  rfl

/-- There are no digits in words, so none is read where one of the first two characters is a digit. -/
theorem readWord?_digit {d : Char} (hd : Text.isAsciiDigit d = true) (rest : List Char) :
    readWord? (d :: rest) = none ∧ readWord? ('-' :: d :: rest) = none := by
  have hletters : ∀ w ∈ words, 2 ≤ w.1.toList.length ∧ w.1.toList.any Text.isAsciiDigit = false := by decide
  have hnone {w : String × Value} (hw : w ∈ words) : d ∉ w.1.toList := fun hmem =>
    List.any_eq_false.1 (hletters w hw).2 d hmem hd
  constructor
  · refine readWord?_eq_none fun w hw hprefix => hnone hw ?_
    have hfirst := hprefix.getElem (Nat.lt_of_lt_of_le Nat.zero_lt_two (hletters w hw).1)
    exact List.mem_of_getElem hfirst
  · refine readWord?_eq_none fun w hw hprefix => hnone hw ?_
    have hsecond := hprefix.getElem (Nat.lt_of_lt_of_le Nat.one_lt_two (hletters w hw).1)
    exact List.mem_of_getElem hsecond

/-- An integer is written as its digits with the sign. -/
theorem toList_toString (n : Int) :
    (toString n).toList = (if n < 0 then ['-'] else []) ++ Nat.toDigits 10 n.natAbs := by
  cases n with
  | ofNat m =>
    rw [Int.ofNat_eq_natCast, if_neg (Int.not_lt.2 (Int.natCast_nonneg m))]
    exact Nat.toList_repr
  | negSucc m =>
    have hrepr : toString (Int.negSucc m) = "-" ++ Nat.repr (m + 1) := rfl
    rw [hrepr, String.toList_append, Nat.toList_repr, if_pos (Int.negSucc_lt_zero m)]
    rfl

/-- **An integer is read back from what is written.** -/
theorem readValue_int {n : Int} {rest : List Char} (hlength : (Nat.toDigits 10 n.natAbs).length ≤ Decimal.maxDigits)
    (hrest : Stops rest) (fuel : Nat) :
    readValue (fuel + 1) ((toString n).toList ++ rest) = some (.int n, rest) := by
  obtain ⟨d, tail, hd⟩ := List.exists_cons_of_ne_nil (Nat.toDigits_ne_nil (n := n.natAbs) (b := 10))
  have hdigit : Text.isAsciiDigit d = true := (Decimal.digit_of_toDigits (hd ▸ List.mem_cons_self ..)).1
  have hsigns : ['"', '[', '\x7b', '-'].any Text.isAsciiDigit = false := rfl
  have hplain : d ∉ ['"', '[', '\x7b', '-'] := fun hmem => List.any_eq_false.1 hsigns d hmem hdigit
  have hread (negative : Bool) := readNumber_toDigits negative hlength hrest
  rw [toList_toString]
  by_cases hn : n < 0
  · have hnumber : (-(n.natAbs : Int)) = n := by omega
    rw [if_pos hn, hd, List.cons_append, List.nil_append, List.cons_append, List.cons_append,
      readValue_plain (by decide), (readWord?_digit hdigit _).2, ← List.cons_append, ← hd]
    simp only
    rw [if_pos (by decide), hread true, if_pos rfl, hnumber]
  · have hnumber : (n.natAbs : Int) = n := by omega
    rw [if_neg hn, hd, List.nil_append, List.cons_append, readValue_plain fun hmem => hplain
      (List.mem_append_left ['-'] hmem), (readWord?_digit hdigit _).1, ← List.cons_append, ← hd]
    simp only
    rw [if_neg fun heq => hplain (by rw [eq_of_beq heq]; decide), hread false, if_neg Bool.false_ne_true, hnumber]

theorem textLiteral_append (s : String) (rest : List Char) :
    (textLiteral s).toList ++ rest = '"' :: (s.toList.flatMap escapedChar ++ '"' :: rest) := by
  rw [textLiteral, String.toList_ofList]
  simp

/-- What stands behind the opening quote is read in full. -/
theorem readText_literal (s : String) (rest : List Char) :
    readText ((s.toList.flatMap escapedChar ++ '"' :: rest).length + 1) (s.toList.flatMap escapedChar ++ '"' :: rest) =
      some (s.toList, rest) := by
  have hlength := length_le_flatMap s.toList
  refine readText_written ?_ rest
  rw [List.length_append]
  omega

/-- **A text is read back from what is written.** -/
theorem readValue_text (s : String) (fuel : Nat) (rest : List Char) :
    readValue (fuel + 1) ((textLiteral s).toList ++ rest) = some (.text s, rest) := by
  rw [textLiteral_append, readValue, readText_literal]
  simp

end Json
end PageComposer
