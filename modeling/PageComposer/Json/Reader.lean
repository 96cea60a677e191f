/-
# Reading JSON

| construct | accepted |
| --- | --- |
| blanks | space, tab, line feed, carriage return |
| numbers | RFC 8259, and `NaN`, `Infinity`, `-Infinity`; an integer of at most 4300 digits |
| texts | no raw control characters; a lone half of a surrogate pair reads as U+FFFD |
| repeated key | the first place, the last value |

The readers work on what is left of the text and return what they leave. `fuel` bounds the nesting
of the calls; the length of the text plus one is always enough.
-/

import PageComposer.Value.Basic
import PageComposer.Decimal.Numeral

namespace PageComposer
namespace Json

/-- The blanks of JSON. -/
def isSpace (c : Char) : Bool :=
  c == ' ' || c == '\t' || c == '\n' || c == '\r'

/-- What follows blanks. -/
def skip (cs : List Char) : List Char :=
  cs.dropWhile isSpace

/-- What follows `word` if the text begins with it. -/
def after? (word : List Char) (cs : List Char) : Option (List Char) :=
  if word.isPrefixOf cs then some (cs.drop word.length) else none

/-- Four hexadecimal digits as a number. -/
def readUnit? : List Char → Option (Nat × List Char)
  | a :: b :: c :: d :: rest => do
    let a ← Text.hexValue? a
    let b ← Text.hexValue? b
    let c ← Text.hexValue? c
    let d ← Text.hexValue? d
    pure (((a * 16 + b) * 16 + c) * 16 + d, rest)
  | _ => none

/-- The character after a backslash other than `u`. -/
def simpleEscape? : Char → Option Char
  | '"' => some '"'
  | '\\' => some '\\'
  | '/' => some '/'
  | 'b' => some '\x08'
  | 'f' => some '\x0c'
  | 'n' => some '\n'
  | 'r' => some '\r'
  | 't' => some '\t'
  | _ => none

/-- A character from its number; halves of surrogate pairs have none of their own. -/
def charOf (n : Nat) : Char :=
  if 0xd800 ≤ n && n < 0xe000 then Char.ofNat 0xfffd else Char.ofNat n

/-- The characters up to the closing quote, and what follows it. -/
def readText (fuel : Nat) (cs : List Char) : Option (List Char × List Char) :=
  match fuel, cs with
  | 0, _ => none
  | _ + 1, [] => none
  | _ + 1, '"' :: rest => some ([], rest)
  | fuel + 1, '\\' :: 'u' :: rest => do
    let (n, rest) ← readUnit? rest
    if 0xd800 ≤ n && n < 0xdc00 then
      match rest with
      | '\\' :: 'u' :: tail =>
        match readUnit? tail with
        | some (m, tail) =>
          if 0xdc00 ≤ m && m < 0xe000 then
            let (s, r) ← readText fuel tail
            pure (Char.ofNat (0x10000 + (n - 0xd800) * 0x400 + (m - 0xdc00)) :: s, r)
          else
            let (s, r) ← readText fuel rest
            pure (charOf n :: s, r)
        | none => none
      | _ =>
        let (s, r) ← readText fuel rest
        pure (charOf n :: s, r)
    else
      let (s, r) ← readText fuel rest
      pure (charOf n :: s, r)
  | fuel + 1, '\\' :: c :: rest => do
    let e ← simpleEscape? c
    let (s, r) ← readText fuel rest
    pure (e :: s, r)
  | _ + 1, ['\\'] => none
  | fuel + 1, c :: rest =>
    if c.toNat < 32 then none
    else do
      let (s, r) ← readText fuel rest
      pure (c :: s, r)

/-- The number of a list of ASCII digits. -/
def digitsValue (ds : List Char) : Nat :=
  Decimal.ofDigits 10 (ds.map fun c => c.toNat - 48)

/-- A fraction after the integer digits: its digits, none if there is no fraction. -/
def readFractionDigits : List Char → List Char × List Char
  | '.' :: rest =>
    let ds := rest.takeWhile Text.isAsciiDigit
    if ds.isEmpty then ([], '.' :: rest) else (ds, rest.drop ds.length)
  | cs => ([], cs)

/-- The digits of an exponent after its mark, with the sign. -/
def readSignedDigits (cs : List Char) : Option (Int × List Char) :=
  let (negative, body) := Decimal.takeSign cs
  let ds := body.takeWhile Text.isAsciiDigit
  if ds.isEmpty then none
  else
    let n := digitsValue ds
    some (if negative then -(n : Int) else n, body.drop ds.length)

/-- An exponent, if there is one. -/
def readExponent? : List Char → Option (Int × List Char)
  | 'e' :: rest => readSignedDigits rest
  | 'E' :: rest => readSignedDigits rest
  | _ => none

/-- A number after its sign. -/
def readNumber (negative : Bool) (cs : List Char) : Option (Value × List Char) := do
  let ds ← match cs with
    | '0' :: _ => some ['0']
    | _ =>
      let ds := cs.takeWhile Text.isAsciiDigit
      if ds.isEmpty then none else some ds
  let rest := cs.drop ds.length
  let (fraction, rest) := readFractionDigits rest
  match readExponent? rest with
  | some (e, rest) =>
    pure (.float (Decimal.Binary64.ofScientific negative (digitsValue (ds ++ fraction))
      (e - fraction.length)), rest)
  | none =>
    if fraction.isEmpty then
      if ds.length > Decimal.maxDigits then none
      else
        let n := digitsValue ds
        pure (.int (if negative then -(n : Int) else n), rest)
    else
      pure (.float (Decimal.Binary64.ofScientific negative (digitsValue (ds ++ fraction))
        (-(fraction.length : Int))), rest)

/-- The words with a value of their own. -/
def words : List (String × Value) :=
  [("null", .null), ("true", .bool true), ("false", .bool false), ("NaN", .float .nan),
    ("Infinity", .float (.infinite false)), ("-Infinity", .float (.infinite true))]

/-- One of the words. -/
def readWord? (cs : List Char) : Option (Value × List Char) :=
  words.findSome? fun w => (after? w.1.toList cs).map (w.2, ·)

mutual

/-- A value. -/
def readValue : Nat → List Char → Option (Value × List Char)
  | 0, _ => none
  | fuel + 1, cs =>
    match cs with
    | [] => none
    | '"' :: rest => do
      let (s, rest) ← readText (rest.length + 1) rest
      pure (.text (String.ofList s), rest)
    | '[' :: rest =>
      match skip rest with
      | ']' :: rest => some (.list [], rest)
      | rest => do
        let (items, rest) ← readItems fuel rest
        pure (.list items, rest)
    | '\x7b' :: rest =>
      match skip rest with
      | '\x7d' :: rest => some (.map [], rest)
      | rest => do
        let (entries, rest) ← readEntries fuel rest
        pure (.map (Entries.putAll [] entries), rest)
    | c :: rest =>
      match readWord? cs with
      | some r => some r
      | none => if c == '-' then readNumber true rest else readNumber false cs

/-- The items of a list up to its end, at least one. -/
def readItems : Nat → List Char → Option (List Value × List Char)
  | 0, _ => none
  | fuel + 1, cs => do
    let (v, rest) ← readValue fuel cs
    match skip rest with
    | ']' :: rest => pure ([v], rest)
    | ',' :: rest => do
      let (vs, rest) ← readItems fuel (skip rest)
      pure (v :: vs, rest)
    | _ => none

/-- The entries of a map up to its end, at least one. -/
def readEntries : Nat → List Char → Option (List (Value × Value) × List Char)
  | 0, _ => none
  | fuel + 1, cs =>
    match cs with
    | '"' :: rest => do
      let (k, rest) ← readText (rest.length + 1) rest
      match skip rest with
      | ':' :: rest => do
        let (v, rest) ← readValue fuel (skip rest)
        let entry := (Value.text (String.ofList k), v)
        match skip rest with
        | '\x7d' :: rest => pure ([entry], rest)
        | ',' :: rest => do
          let (es, rest) ← readEntries fuel (skip rest)
          pure (entry :: es, rest)
        | _ => none
      | _ => none
    | _ => none

end

/-- The value that a whole text holds. -/
def read? (s : String) : Option Value := do
  let cs := s.toList
  let (v, rest) ← readValue (cs.length + 1) (skip cs)
  if (skip rest).isEmpty then some v else none

end Json
end PageComposer
