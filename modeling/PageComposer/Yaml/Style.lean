/-
# How a scalar is written

| style | for |
| --- | --- |
| plain | a line of printable ASCII without blanks at its ends, signs of structure, or a look of another kind |
| single | printable ASCII and line feeds, no blank beside a line feed |
| double | any text |
| literal | the letters of a byte string |

A key that stands on a line with its value is in none of the styles that need several lines.
-/

import PageComposer.Decimal.Shortest
import PageComposer.Value.Display
import PageComposer.Yaml.Kind

namespace PageComposer
namespace Yaml

/-- A style of writing a scalar. -/
inductive Style where
  | plain
  | single
  | double
  | literal
  deriving Repr, DecidableEq, Inhabited

/-- Printable ASCII. -/
def isShown (c : Char) : Bool := ' ' ≤ c && c ≤ '~'

/-- Characters that end a line. -/
def isLineEnd (c : Char) : Bool := c == '\n' || c == '\x85' || c == '\u2028' || c == '\u2029'

/-- Whether a text goes over several lines. -/
def isMultiline (cs : List Char) : Bool := cs.any isLineEnd

/-- Whether a text begins with a sign of structure. -/
def startsMarked (cs : List Char) : Bool :=
  "---".toList.isPrefixOf cs || "...".toList.isPrefixOf cs ||
    match cs with
    | [] => false
    | c :: rest =>
      "#,[]\x7b\x7d&*!|>'\"%@\x60".toList.contains c ||
        ("?:-".toList.contains c && (rest.isEmpty || rest.head? == some ' '))

/-- Whether a colon before a blank or a number sign behind a blank stands in a text. -/
def holdsMark : List Char → Bool
  | [] => false
  | [c] => c == ':'
  | c :: d :: rest => (c == ':' && d == ' ') || (c == ' ' && d == '#') || holdsMark (d :: rest)

/-- Whether a text can be written plain. -/
def allowsPlain (cs : List Char) : Bool :=
  cs.all isShown && cs.head? != some ' ' && cs.getLast? != some ' ' && !startsMarked cs &&
    !holdsMark cs

/-- Whether a blank stands beside a line feed. -/
def hasRaggedLine : List Char → Bool
  | c :: d :: rest =>
    (c == ' ' && d == '\n') || (c == '\n' && d == ' ') || hasRaggedLine (d :: rest)
  | _ => false

/-- Whether a text can be written between single quotes. -/
def allowsSingle (cs : List Char) : Bool :=
  cs.all (fun c => isShown c || c == '\n') && !hasRaggedLine cs

/-- A scalar that is to be written. -/
structure Scalar where
  /-- The kind that its tag names. -/
  kind : String
  text : List Char
  /-- Whether it is written literally where that can be. -/
  isLiteral : Bool := false
  deriving Repr, DecidableEq, Inhabited

namespace Scalar

/-- Whether the scalar, written plain, is of its kind. -/
def isEvident (s : Scalar) : Bool := kindOf (String.ofList s.text) == s.kind

/-- The style of a scalar; `beside` tells whether it is a key on one line with its value. -/
def style (s : Scalar) (beside : Bool) : Style :=
  let lines := isMultiline s.text
  if s.isLiteral then
    if !beside && !s.text.isEmpty && allowsSingle s.text then .literal else .double
  else if s.isEvident && !(beside && (s.text.isEmpty || lines)) && allowsPlain s.text then .plain
  else if allowsSingle s.text && !(beside && lines) then .single
  else .double

/-- The tag of a scalar. -/
def tag (s : Scalar) : String := "!!" ++ s.kind

/-- Whether the tag has to be written. -/
def needsTag (s : Scalar) (style : Style) : Bool :=
  if style == .plain then !s.isEvident else s.kind != "str"

/-- Whether a scalar can be a key on one line with its value. -/
def isShortKey (s : Scalar) : Bool :=
  s.tag.length + s.text.length < 128 && !s.text.isEmpty && !isMultiline s.text

end Scalar

/-- A decimal; one with an exponent has a point before it. -/
def decimalText (x : Decimal.Binary64) : List Char :=
  match x with
  | .nan => ".nan".toList
  | .infinite negative => (if negative then "-.inf" else ".inf").toList
  | x =>
    let cs := x.text.toList
    if cs.contains '.' then cs
    else cs.flatMap fun c => if c == 'e' then ['.', '0', 'e'] else [c]

/-- A digit of base sixty-four. -/
def letter64 (n : Nat) : Char :=
  if n < 26 then Char.ofNat (65 + n)
  else if n < 52 then Char.ofNat (71 + n)
  else if n < 62 then Char.ofNat (n - 4)
  else if n == 62 then '+' else '/'

/-- Bytes in base sixty-four. -/
def letters64 : List UInt8 → List Char
  | [] => []
  | [a] => [letter64 (a.toNat / 4), letter64 (a.toNat % 4 * 16), '=', '=']
  | [a, b] =>
    [letter64 (a.toNat / 4), letter64 (a.toNat % 4 * 16 + b.toNat / 16),
      letter64 (b.toNat % 16 * 4), '=']
  | a :: b :: c :: rest =>
    letter64 (a.toNat / 4) :: letter64 (a.toNat % 4 * 16 + b.toNat / 16) ::
      letter64 (b.toNat % 16 * 4 + c.toNat / 64) :: letter64 (c.toNat % 64) :: letters64 rest

/-- Characters on lines of 76; `n` counts those that are left on the line. -/
def onLines (n : Nat) : List Char → List Char
  | [] => if n == 76 then [] else ['\n']
  | c :: rest =>
    match n with
    | 0 => '\n' :: c :: onLines 75 rest
    | n + 1 => c :: onLines n rest

/-- The scalar that a value is. -/
def Scalar.ofValue? : Value → Option Scalar
  | .null => some { kind := "null", text := "null".toList }
  | .bool b => some { kind := "bool", text := (if b then "true" else "false").toList }
  | .int n => some { kind := "int", text := (toString n).toList }
  | .float x => some { kind := "float", text := decimalText x }
  | .text s => some { kind := "str", text := s.toList }
  | .date d => some { kind := "timestamp", text := d.text.toList }
  | .moment m => some { kind := "timestamp", text := (m.text " ").toList }
  | .bytes bs => some { kind := "binary", text := onLines 76 (letters64 bs), isLiteral := true }
  | _ => none

/-- The scalar of a key; one that is no scalar is shown in one line. -/
def Scalar.ofKey (k : Value) : Scalar :=
  (Scalar.ofValue? k).getD { kind := "str", text := k.display.toList }

end Yaml
end PageComposer
