/-
# Numerals

| reader | accepts |
| --- | --- |
| `readInt` | blanks, sign, decimal digits of any script with single underscores between them, blanks |
| `readFraction?` | sign, digits with a point before, among or after them |
| `readDecimal?` | blanks, sign, digits with or without a point, exponent; `inf`, `infinity`, `nan` |
| `readDigits?` | blanks, sign, the mark of the base, digits of a base up to sixteen |
| `ofDigits` | the number a list of digit values denotes |

An integer numeral has at most 4300 digits; a longer one is refused with the count.
-/

import PageComposer.Text.Quoted
import PageComposer.Decimal.Binary64

namespace PageComposer
namespace Decimal

/-- The number that digit values denote in `base`, the most significant digit first. -/
def ofDigits (base : Nat) (ds : List Nat) : Nat :=
  ds.foldl (fun n d => base * n + d) 0

/-- The most digits that an integer numeral may have. -/
def maxDigits : Nat := 4300

/-- Why a text is no integer. -/
inductive NumeralFault where
  | malformed (text : String)
  | tooLong (digits : Nat)
  deriving Repr, DecidableEq, Inhabited

/-- The words for a fault; a malformed numeral is shown up to 200 characters. -/
def NumeralFault.message : NumeralFault → String
  | .malformed s =>
    "invalid literal for int() with base 10: " ++ String.ofList ((Text.quoted s).toList.take 200)
  | .tooLong n =>
    s!"Exceeds the limit ({maxDigits} digits) for integer string conversion: value has {n} digits" ++
      "; use sys.set_int_max_str_digits() to increase the limit"

/-- The values of digits with single underscores between them, up to the end of the text. -/
def digitValues? : List Char → Option (List Nat)
  | [] => none
  | [c] => (Text.digitValue? c).map ([·])
  | c :: '_' :: rest => do
    let d ← Text.digitValue? c
    let ds ← digitValues? rest
    pure (d :: ds)
  | c :: rest => do
    let d ← Text.digitValue? c
    let ds ← digitValues? rest
    pure (d :: ds)

/-- A sign and what follows it. -/
def takeSign : List Char → Bool × List Char
  | '-' :: r => (true, r)
  | '+' :: r => (false, r)
  | cs => (false, cs)

/-- The natural number of a digit list, refused if it is too long. -/
def boundedOfDigits (ds : List Nat) : Except NumeralFault Nat :=
  if ds.length > maxDigits then .error (.tooLong ds.length) else .ok (ofDigits 10 ds)

/-- The integer that a text writes. -/
def readInt (s : String) : Except NumeralFault Int :=
  let (negative, body) := takeSign (Text.trimOf Text.isNumeralBlank s.toList)
  match digitValues? body with
  | none => .error (.malformed s)
  | some ds => (boundedOfDigits ds).map fun n => if negative then -(n : Int) else n

/-- Digit values of `cs` if all of it is digits. -/
def plainDigits? (cs : List Char) : Option (List Nat) :=
  cs.mapM Text.digitValue?

/-- Whether a text is an optional sign and at least one digit. -/
def isIntegerNumeral (cs : List Char) : Bool :=
  let body := (takeSign cs).2
  !body.isEmpty && body.all Text.isDigit

/-- The number that a sign and digits around one point denote, with a digit on one side at
least. -/
def readFraction? (cs : List Char) : Option Binary64 :=
  let (negative, body) := takeSign cs
  let whole := body.takeWhile (· != '.')
  match body.drop whole.length with
  | '.' :: fraction =>
    if whole.isEmpty && fraction.isEmpty then none
    else do
      let ws ← plainDigits? whole
      let fs ← plainDigits? fraction
      pure (Binary64.ofScientific negative (ofDigits 10 (ws ++ fs)) (-(fs.length : Int)))
  | _ => none

/-- The exponent that a text is, if it is one from its first character on. -/
def readPower? : List Char → Option Int
  | [] => some 0
  | e :: rest =>
    if e == 'e' || e == 'E' then
      let (negative, body) := takeSign rest
      if body.isEmpty then none
      else (plainDigits? body).map fun ds =>
        let n : Int := ofDigits 10 ds
        if negative then -n else n
    else none

/-- The decimal that a text writes. -/
def readDecimal? (s : String) : Option Binary64 := do
  let (negative, body) := takeSign (Text.trimOf Text.isNumeralBlank s.toList)
  let word := String.ofList (body.map Char.toLower)
  if word == "inf" || word == "infinity" then pure (.infinite negative)
  else if word == "nan" then pure .nan
  else
    let whole := body.takeWhile Text.isDigit
    let (fraction, tail) := match body.drop whole.length with
      | '.' :: rest =>
        let fraction := rest.takeWhile Text.isDigit
        (fraction, rest.drop fraction.length)
      | rest => ([], rest)
    if whole.isEmpty && fraction.isEmpty then none
    else
      let ds ← plainDigits? (whole ++ fraction)
      let power ← readPower? tail
      pure (Binary64.ofScientific negative (ofDigits 10 ds) (power - fraction.length))

/-- The value of a digit in a base of at most sixteen. -/
def digitIn? (base : Nat) (c : Char) : Option Nat :=
  match (Text.digitValue? c).or (Text.hexValue? c) with
  | some d => if d < base then some d else none
  | none => none

/-- The letter that marks a base. -/
def baseMark (base : Nat) : Option Char :=
  [(2, 'b'), (8, 'o'), (16, 'x')].lookup base

/-- The integer that a text writes in a base, perhaps with the mark of the base before it. -/
def readDigits? (base : Nat) (s : String) : Option Int := do
  let (negative, body) := takeSign (Text.trimOf Text.isNumeralBlank s.toList)
  let digits := match body with
    | '0' :: m :: rest => if some m.toLower == baseMark base then rest else body
    | _ => body
  let ds ← digits.mapM (digitIn? base)
  if ds.isEmpty then none
  else
    let n : Int := ofDigits base ds
    pure (if negative then -n else n)

end Decimal
end PageComposer
