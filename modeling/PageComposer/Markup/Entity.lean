/-
# Character references

A reference stands for characters by name or by number. Running text and attribute values read
them by different rules.

| reference | in text | in an attribute value |
| --- | --- | --- |
| known name and `;` | its characters | its characters |
| known name, no `;` | its characters | only the 106 old names; else the longest old name that begins it |
| unknown name | `&` and the name | left as it is |
| number 0, a surrogate, beyond U+10FFFF | U+FFFD | U+FFFD |
| number 0x80–0x9f | windows-1252 where it is defined | the same |
| other controls and non-characters | the character | nothing |

The names that rendering writes come first in the table, so reading them back never looks further.
-/

import PageComposer.Decimal.Numeral
import PageComposer.Markup.EntityTable
import PageComposer.Text.Windows

namespace PageComposer
namespace Markup

/-- What a name stands for. -/
structure Entity where
  /-- The characters. -/
  text : List Char
  /-- Whether an attribute value may leave the semicolon out. -/
  bare : Bool
  deriving Repr, DecidableEq, Inhabited

/-- The names that rendering writes, and their capital forms. -/
def basicEntities : List (String × Entity) :=
  [("amp", ⟨['&'], true⟩), ("lt", ⟨['<'], true⟩), ("gt", ⟨['>'], true⟩), ("quot", ⟨['"'], true⟩)]

/-- A hexadecimal number. -/
def hexNumber (cs : List Char) : Nat :=
  Decimal.ofDigits 16 (cs.filterMap Text.hexValue?)

/-- One entry of the table of names. -/
def readEntity (entry : List Char) : String × Entity :=
  match Text.pieces ':' entry with
  | [name, points] =>
    let text := (Text.pieces '+' points).map fun p => Char.ofNat (hexNumber p)
    if name.getLast? == some '!' then (String.ofList name.dropLast, ⟨text, true⟩)
    else (String.ofList name, ⟨text, false⟩)
  | _ => (String.ofList entry, ⟨[], false⟩)

/-- All names. -/
def entities : List (String × Entity) :=
  entityTable.flatMap fun line => (Text.pieces ' ' line.toList).map readEntity

/-- What a name stands for, if it is known. -/
def entity? (name : String) : Option Entity :=
  match basicEntities.lookup name with
  | some e => some e
  | none => entities.lookup name

/-- A character by its number, U+FFFD where there is none. -/
def numbered (n : Nat) : Char :=
  if n == 0 || n > 0x10ffff || (0xd800 ≤ n && n ≤ 0xdfff) then Char.ofNat 0xfffd
  else
    match Text.windowsControl? n with
    | some m => Char.ofNat m
    | none => Char.ofNat n

/-- Numbers that an attribute value drops: controls other than white space, and non-characters. -/
def isDropped (n : Nat) : Bool :=
  (1 ≤ n && n ≤ 8) || n == 0xb || (0xe ≤ n && n ≤ 0x1f) || n == 0x7f ||
    (0xfdd0 ≤ n && n ≤ 0xfdef) || n % 0x10000 ≥ 0xfffe

/-- The characters of a numbered reference in an attribute value. -/
def numberedInValue (n : Nat) : List Char :=
  if n ≤ 0x10ffff && isDropped n then [] else [numbered n]

/-- The longest proper beginning of a name, of at most `n` and at least two characters, that is an
old name; with what it leaves of the name. -/
def oldNameIn? (name : List Char) : Nat → Option (List Char × List Char)
  | 0 | 1 => none
  | n + 2 =>
    match entity? (String.ofList (name.take (n + 2))) with
    | some e => if e.bare then some (e.text, name.drop (n + 2)) else oldNameIn? name (n + 1)
    | none => oldNameIn? name (n + 1)

/-- A named reference in an attribute value. -/
def namedInValue (name : List Char) (semicolon : Bool) : List Char :=
  let tail := if semicolon then [';'] else []
  let byBeginning :=
    match oldNameIn? name (name.length - 1) with
    | some (text, rest) => text ++ rest ++ tail
    | none => '&' :: (name ++ tail)
  match entity? (String.ofList name) with
  | some e => if semicolon || e.bare then e.text else byBeginning
  | none => byBeginning

/-- What may stand in a name as an attribute value reads it. -/
def isValueNameChar (c : Char) : Bool :=
  !(c == '\t' || c == '\n' || c == '\x0c' || c == ' ' || c == '<' || c == '&' || c == '#' ||
    c == ';')

/-- A semicolon, if there is one, and what follows. -/
def takeSemicolon : List Char → Bool × List Char
  | ';' :: rest => (true, rest)
  | cs => (false, cs)

/-- The reference that follows an ampersand in an attribute value: its characters and what is left.
None if no reference follows. -/
def valueReference? (cs : List Char) :
    Except Decimal.NumeralFault (Option (List Char × List Char)) :=
  match cs with
  | '#' :: rest =>
    let ds := rest.takeWhile Text.isAsciiDigit
    if !ds.isEmpty then do
      let n ← Decimal.boundedOfDigits (ds.filterMap Text.digitValue?)
      pure (some (numberedInValue n, (takeSemicolon (rest.drop ds.length)).2))
    else
      match rest with
      | x :: rest =>
        let hs := rest.takeWhile Text.isHexDigit
        if (x == 'x' || x == 'X') && !hs.isEmpty then
          pure (some (numberedInValue (hexNumber hs), (takeSemicolon (rest.drop hs.length)).2))
        else pure none
      | [] => pure none
  | _ =>
    let name := (cs.takeWhile isValueNameChar).take 32
    if name.isEmpty then pure none
    else
      let (semicolon, rest) := takeSemicolon (cs.drop name.length)
      pure (some (namedInValue name semicolon, rest))

/-- An attribute value with its references read. Every round takes at least the ampersand, so
`fuel` above the length of the text is enough. -/
def decodeValueFrom (fuel : Nat) (cs : List Char) : Except Decimal.NumeralFault (List Char) :=
  match fuel, cs with
  | 0, cs => .ok cs
  | _ + 1, [] => .ok []
  | fuel + 1, '&' :: rest => do
    match ← valueReference? rest with
    | some (text, rest) => pure (text ++ (← decodeValueFrom fuel rest))
    | none => pure ('&' :: (← decodeValueFrom fuel rest))
  | fuel + 1, c :: rest => do pure (c :: (← decodeValueFrom fuel rest))

/-- An attribute value with its references read. -/
def decodeValue (cs : List Char) : Except Decimal.NumeralFault (List Char) :=
  decodeValueFrom cs.length cs

end Markup
end PageComposer
