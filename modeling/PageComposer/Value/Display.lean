/-
# How a value is shown

The one-line form of a value in messages.

| value | shown |
| --- | --- |
| `null`, `bool` | `None`, `True`, `False` |
| `int`, `float` | decimal digits; the shortest decimal |
| `text` | quoted |
| `list`, `map`, `set`, `pair` | between brackets, braces, braces, parentheses, with `, ` between items |
| `bytes` | quoted after `b`, bytes outside printable ASCII as `\x` and two digits |
| `date`, `moment` | a call that names the numbers |
-/

import PageComposer.Text.Quoted
import PageComposer.Decimal.Shortest
import PageComposer.Value.Basic

namespace PageComposer
namespace Value

/-- An opening brace. -/
def braceOpen : String := "\x7b"

/-- A closing brace. -/
def braceClose : String := "\x7d"

/-- Truth values as messages show them. -/
def boolText (b : Bool) : String := if b then "True" else "False"

/-- One byte of a quoted byte string. -/
def quotedByte (quote : Char) (b : UInt8) : List Char :=
  let c := Char.ofNat b.toNat
  if c == quote || c == '\\' then ['\\', c]
  else if c == '\n' then ['\\', 'n']
  else if c == '\r' then ['\\', 'r']
  else if c == '\t' then ['\\', 't']
  else if 32 ≤ b.toNat && b.toNat ≤ 126 then [c]
  else '\\' :: 'x' :: Text.hexDigits 2 b.toNat

/-- A byte string between quotes. -/
def bytesText (bs : List UInt8) : String :=
  let quote := Text.quoteFor (bs.map fun b => Char.ofNat b.toNat)
  String.ofList ('b' :: quote :: (bs.flatMap (quotedByte quote) ++ [quote]))

/-- An offset from universal time as a call. -/
def offsetCall (offset : Int) : String :=
  if offset == 0 then "datetime.timezone.utc"
  else s!"datetime.timezone({durationText offset})"

/-- The numbers of a moment, without zero seconds and fractions at the end. -/
def momentNumbers (m : Moment) : List String :=
  [toString m.date.year, toString m.date.month, toString m.date.day, toString m.hour,
    toString m.minute] ++
    (if m.microsecond != 0 then [toString m.second, toString m.microsecond]
     else if m.second != 0 then [toString m.second] else []) ++
    (match m.offset with
     | none => []
     | some o => ["tzinfo=" ++ offsetCall o])

mutual

/-- The one-line form of a value. -/
def display : Value → String
  | .null => "None"
  | .bool b => boolText b
  | .int n => toString n
  | .float x => x.text
  | .text s => Text.quoted s
  | .list items => "[" ++ ", ".intercalate (displayAll items) ++ "]"
  | .map entries => braceOpen ++ ", ".intercalate (displayEntries entries) ++ braceClose
  | .date d => s!"datetime.date({d.year}, {d.month}, {d.day})"
  | .moment m => "datetime.datetime(" ++ ", ".intercalate (momentNumbers m) ++ ")"
  | .bytes bs => bytesText bs
  | .set [] => "set()"
  | .set items => braceOpen ++ ", ".intercalate (displayAll items) ++ braceClose
  | .pair a b => "(" ++ display a ++ ", " ++ display b ++ ")"

/-- The one-line forms of several values. -/
def displayAll : List Value → List String
  | [] => []
  | v :: rest => display v :: displayAll rest

/-- The one-line forms of entries. -/
def displayEntries : List (Value × Value) → List String
  | [] => []
  | (k, v) :: rest => (display k ++ ": " ++ display v) :: displayEntries rest

end

/-- A value as plain text: a text stands for itself, dates and moments are written with digits. -/
def plain : Value → String
  | .text s => s
  | .date d => d.text
  | .moment m => m.text " "
  | v => v.display

end Value
end PageComposer
