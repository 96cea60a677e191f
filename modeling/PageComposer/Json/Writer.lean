/-
# JSON text

Values as JSON in ASCII.

| value | written |
| --- | --- |
| text | between double quotes; `"`, `\` and controls escaped, everything beyond `~` as `\u` and four digits per UTF-16 unit |
| numbers | as shown elsewhere; `NaN`, `Infinity`, `-Infinity` |
| list, map | `[a, b]`, with an indent one item a line; an empty one on its line |
| key | a text; numbers, truth values and null as their text |
| any other value | its plain text, as a text |

A key that is a date, a byte string or a pair has no JSON form.
-/

import PageComposer.Value.Display

namespace PageComposer
namespace Json

/-- One UTF-16 unit as an escape. -/
def unitEscape (n : Nat) : List Char :=
  '\\' :: 'u' :: Text.hexDigits 4 n

/-- One character of a JSON text. -/
def escapedChar (c : Char) : List Char :=
  if c == '"' || c == '\\' then ['\\', c]
  else if c == '\n' then ['\\', 'n']
  else if c == '\r' then ['\\', 'r']
  else if c == '\t' then ['\\', 't']
  else if c == '\x08' then ['\\', 'b']
  else if c == '\x0c' then ['\\', 'f']
  else
    let n := c.toNat
    if 32 ≤ n && n ≤ 126 then [c]
    else if n < 0x10000 then unitEscape n
    else
      let m := n - 0x10000
      unitEscape (0xd800 + m / 0x400) ++ unitEscape (0xdc00 + m % 0x400)

/-- A text between double quotes. -/
def textLiteral (s : String) : String :=
  String.ofList ('"' :: (s.toList.flatMap escapedChar ++ ['"']))

/-- A number, also one that is not finite. -/
def floatLiteral (x : Decimal.Binary64) : String :=
  match x with
  | .nan => "NaN"
  | .infinite n => if n then "-Infinity" else "Infinity"
  | x => x.text

/-- A key that JSON cannot write, by its kind. -/
structure KeyFault where
  kind : String
  deriving Repr, DecidableEq, Inhabited

/-- The words for a key that JSON cannot write. -/
def KeyFault.message (f : KeyFault) : String :=
  "keys must be str, int, float, bool or None, not " ++ f.kind

/-- The text of a key. -/
def keyText : Value → Except KeyFault String
  | .text s => .ok s
  | .int n => .ok (toString n)
  | .float x => .ok (floatLiteral x)
  | .bool b => .ok (if b then "true" else "false")
  | .null => .ok "null"
  | .date _ => .error ⟨"date"⟩
  | .moment _ => .error ⟨"datetime"⟩
  | .bytes _ => .error ⟨"bytes"⟩
  | .pair .. => .error ⟨"tuple"⟩
  | .list _ => .error ⟨"list"⟩
  | .map _ => .error ⟨"dict"⟩
  | .set _ => .error ⟨"set"⟩

/-- The line break before an item at `depth`; without an indent there is none. -/
def breakAt (indent : Option Int) (depth : Nat) : String :=
  match indent with
  | none => ""
  | some n => String.ofList ('\n' :: List.replicate (depth * n.toNat) ' ')

/-- What stands between two items. -/
def separator (indent : Option Int) (depth : Nat) : String :=
  match indent with
  | none => ", "
  | some _ => "," ++ breakAt indent depth

/-- Items between brackets, on lines of their own if there is an indent. -/
def enclosed (indent : Option Int) (depth : Nat) (opening closing : String) :
    List String → String
  | [] => opening ++ closing
  | items =>
    opening ++ breakAt indent (depth + 1) ++
      (separator indent (depth + 1)).intercalate items ++ breakAt indent depth ++ closing

mutual

/-- A value at `depth`. -/
def writeAt (indent : Option Int) (depth : Nat) : Value → Except KeyFault String
  | .null => .ok "null"
  | .bool b => .ok (if b then "true" else "false")
  | .int n => .ok (toString n)
  | .float x => .ok (floatLiteral x)
  | .text s => .ok (textLiteral s)
  | .list items => do
    let parts ← writeItems indent (depth + 1) items
    pure (enclosed indent depth "[" "]" parts)
  | .map entries => do
    let parts ← writeEntries indent (depth + 1) entries
    pure (enclosed indent depth Value.braceOpen Value.braceClose parts)
  | .pair a b => do
    let x ← writeAt indent (depth + 1) a
    let y ← writeAt indent (depth + 1) b
    pure (enclosed indent depth "[" "]" [x, y])
  | v => .ok (textLiteral v.plain)

/-- The items of a list. -/
def writeItems (indent : Option Int) (depth : Nat) : List Value → Except KeyFault (List String)
  | [] => .ok []
  | v :: rest => do
    let x ← writeAt indent depth v
    let xs ← writeItems indent depth rest
    pure (x :: xs)

/-- The entries of a map. -/
def writeEntries (indent : Option Int) (depth : Nat) :
    List (Value × Value) → Except KeyFault (List String)
  | [] => .ok []
  | (k, v) :: rest => do
    let key ← keyText k
    let x ← writeAt indent depth v
    let xs ← writeEntries indent depth rest
    pure ((textLiteral key ++ ": " ++ x) :: xs)

end

/-- A value as JSON. -/
def write (indent : Option Int) (v : Value) : Except KeyFault String :=
  writeAt indent 0 v

end Json
end PageComposer
