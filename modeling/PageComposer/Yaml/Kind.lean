/-
# What a plain scalar is

| kind | notation |
| --- | --- |
| truth value | `yes`, `no`, `true`, `false`, `on`, `off`, all small, all capital or with one capital |
| decimal | digits with a point, an exponent only with a sign; base sixty; `.inf`, `.nan` |
| integer | binary `0b`, octal `0`, decimal, hexadecimal `0x`, base sixty |
| merge | `<<` |
| null | `~`, `null`, nothing |
| date | four, two and two digits; with a time of day also shorter |
| default | `=` |

Digits may have underscores among them. The first kind in this order counts; all else is text.
-/

import PageComposer.Text.Class

namespace PageComposer
namespace Yaml

/-- What the tags of YAML begin with. -/
def tagStart : String := "tag:yaml.org,2002:"

/-- Whether the rest of a text is at its end; one line feed there does not count. -/
def atEnd (cs : List Char) : Bool := cs.isEmpty || cs == ['\n']

/-- What follows an optional sign. -/
def afterSign : List Char → List Char
  | c :: rest => if c == '-' || c == '+' then rest else c :: rest
  | [] => []

/-- A decimal digit or an underscore. -/
def isSpacedDigit (c : Char) : Bool := Text.isAsciiDigit c || c == '_'

/-- What follows a decimal digit and further ones with underscores. -/
def afterDigits? : List Char → Option (List Char)
  | c :: rest => if Text.isAsciiDigit c then some (rest.dropWhile isSpacedDigit) else none
  | [] => none

/-- What follows an exponent, which has a sign, or the whole text where there is none. -/
def afterExponent (cs : List Char) : List Char :=
  match cs with
  | e :: s :: rest =>
    let digits := rest.takeWhile Text.isAsciiDigit
    if (e == 'e' || e == 'E') && (s == '-' || s == '+') && !digits.isEmpty then
      rest.drop digits.length
    else cs
  | _ => cs

/-- What follows one digit of base sixty behind a colon. -/
def afterSixtieth? : List Char → Option (List Char)
  | ':' :: a :: b :: rest =>
    if '0' ≤ a && a ≤ '5' && Text.isAsciiDigit b then some rest
    else if Text.isAsciiDigit a then some (b :: rest) else none
  | ':' :: a :: [] => if Text.isAsciiDigit a then some [] else none
  | _ => none

/-- What follows all digits of base sixty, and whether there are any. -/
def afterSixtieths : Nat → Bool → List Char → Bool × List Char
  | 0, some?, cs => (some?, cs)
  | fuel + 1, some?, cs =>
    match afterSixtieth? cs with
    | some rest => afterSixtieths fuel true rest
    | none => (some?, cs)

/-- Digits, a point and digits, perhaps with an exponent. -/
def isPointed (cs : List Char) : Bool :=
  match afterDigits? cs with
  | some ('.' :: rest) => atEnd (afterExponent (rest.dropWhile isSpacedDigit))
  | _ => false

/-- A point and digits, perhaps with an exponent. -/
def isFraction : List Char → Bool
  | '.' :: rest =>
    match afterDigits? rest with
    | some rest => atEnd (afterExponent rest)
    | none => false
  | _ => false

/-- Digits of base sixty with a point behind them. -/
def isSixtyPointed (cs : List Char) : Bool :=
  match afterDigits? cs with
  | some rest =>
    match afterSixtieths rest.length false rest with
    | (true, '.' :: rest) => atEnd (rest.dropWhile isSpacedDigit)
    | _ => false
  | none => false

/-- Whether a text is one of some words. -/
def isOneOf (words : List String) (cs : List Char) : Bool :=
  words.any fun w => w.toList.isPrefixOf cs && atEnd (cs.drop w.length)

/-- A decimal. -/
def isDecimal (cs : List Char) : Bool :=
  let body := afterSign cs
  isPointed body || isFraction cs || isSixtyPointed body ||
    isOneOf [".inf", ".Inf", ".INF"] body || isOneOf [".nan", ".NaN", ".NAN"] cs

/-- Digits that `p` holds of, or underscores, at least one. -/
def isSomeOf (p : Char → Bool) (cs : List Char) : Bool :=
  let digits := cs.takeWhile fun c => p c || c == '_'
  !digits.isEmpty && atEnd (cs.drop digits.length)

/-- An integer. -/
def isInteger (cs : List Char) : Bool :=
  let isBetween (a b c : Char) : Bool := a ≤ c && c ≤ b
  match afterSign cs with
  | '0' :: rest =>
    atEnd rest || isSomeOf (isBetween '0' '7') rest ||
      (match rest with
       | 'b' :: rest => isSomeOf (isBetween '0' '1') rest
       | 'x' :: rest => isSomeOf Text.isHexDigit rest
       | _ => false)
  | c :: rest =>
    isBetween '1' '9' c &&
      (let rest := rest.dropWhile isSpacedDigit
       atEnd rest ||
        (match afterSixtieths rest.length false rest with
         | (true, rest) => atEnd rest
         | _ => false))
  | [] => false

/-- What follows `least` to `most` digits. -/
def afterFewDigits? (least most : Nat) (cs : List Char) : Option (List Char) :=
  let n := (cs.takeWhile Text.isAsciiDigit).length
  if n < least then none else some (cs.drop (min n most))

/-- What follows `c`. -/
def afterChar? (c : Char) : List Char → Option (List Char)
  | d :: rest => if d == c then some rest else none
  | [] => none

/-- A space or a tab. -/
def isGap (c : Char) : Bool := c == ' ' || c == '\t'

/-- What follows a date. -/
def afterDate? (least : Nat) (cs : List Char) : Option (List Char) := do
  let cs ← afterFewDigits? 4 4 cs
  let cs ← afterChar? '-' cs
  let cs ← afterFewDigits? least 2 cs
  let cs ← afterChar? '-' cs
  afterFewDigits? least 2 cs

/-- What parts a date from a time of day: a `T`, or blanks. -/
def afterDateGap? : List Char → Option (List Char)
  | c :: rest =>
    if c == 'T' || c == 't' then some rest
    else if isGap c then some (rest.dropWhile isGap) else none
  | [] => none

/-- What follows a time of day. -/
def afterTime? (cs : List Char) : Option (List Char) := do
  let cs ← afterFewDigits? 1 2 cs
  let cs ← afterChar? ':' cs
  let cs ← afterFewDigits? 2 2 cs
  let cs ← afterChar? ':' cs
  let cs ← afterFewDigits? 2 2 cs
  match cs with
  | '.' :: rest => some (rest.dropWhile Text.isAsciiDigit)
  | cs => some cs

/-- Whether an offset from universal time is all that is left, or nothing. -/
def isZone (cs : List Char) : Bool :=
  atEnd cs ||
    match cs.dropWhile isGap with
    | 'Z' :: rest => atEnd rest
    | c :: rest =>
      (c == '-' || c == '+') &&
        (match afterFewDigits? 1 2 rest with
         | none => false
         | some (':' :: rest) => (afterFewDigits? 2 2 rest).any atEnd
         | some rest => atEnd rest)
    | [] => false

/-- A date, perhaps with a time of day. -/
def isTimestamp (cs : List Char) : Bool :=
  (afterDate? 2 cs).any atEnd ||
    (do
      let cs ← afterDate? 1 cs
      let cs ← afterDateGap? cs
      afterTime? cs).any isZone

/-- A word with its spellings: all small, with one capital, all capital. -/
def spellings (word : String) : List String :=
  [word, word.capitalize, word.toUpper]

/-- The name of the kind of a plain scalar. -/
def kindOf (s : String) : String :=
  let cs := s.toList
  if isOneOf (["yes", "no", "true", "false", "on", "off"].flatMap spellings) cs then "bool"
  else if isDecimal cs then "float"
  else if isInteger cs then "int"
  else if isOneOf ["<<"] cs then "merge"
  else if cs.isEmpty || isOneOf ("~" :: spellings "null") cs then "null"
  else if isTimestamp cs then "timestamp"
  else if isOneOf ["="] cs then "value"
  else if isOneOf ["!", "&", "*"] cs then "yaml"
  else "str"

end Yaml
end PageComposer
