/-
# Quoted text

The form in which messages show a text: between quotes, on one line, in characters that can be
seen.

| character | written |
| --- | --- |
| the quote, the backslash | after a backslash |
| line feed, carriage return, tab | `\n`, `\r`, `\t` |
| not printable, below U+0100 | `\x` and two digits |
| not printable, below U+10000 | `\u` and four digits |
| not printable, others | `\U` and eight digits |

The quote is `'`, or `"` where the text holds the first and not the second.
-/

import PageComposer.Text.Class

namespace PageComposer
namespace Text

/-- `n` in hexadecimal, padded with zeros to `width` digits. -/
def hexDigits (width n : Nat) : List Char :=
  let ds := Nat.toDigits 16 n
  List.replicate (width - ds.length) '0' ++ ds

/-- The quote that encloses a text. -/
def quoteFor (cs : List Char) : Char :=
  if cs.contains '\'' && !cs.contains '"' then '"' else '\''

/-- One character of a quoted text. -/
def quotedChar (quote c : Char) : List Char :=
  if c == quote || c == '\\' then ['\\', c]
  else if c == '\n' then ['\\', 'n']
  else if c == '\r' then ['\\', 'r']
  else if c == '\t' then ['\\', 't']
  else if isPrintable c then [c]
  else if c.toNat < 0x100 then '\\' :: 'x' :: hexDigits 2 c.toNat
  else if c.toNat < 0x10000 then '\\' :: 'u' :: hexDigits 4 c.toNat
  else '\\' :: 'U' :: hexDigits 8 c.toNat

/-- A text between quotes. -/
def quoted (s : String) : String :=
  let quote := quoteFor s.toList
  String.ofList (quote :: (s.toList.flatMap (quotedChar quote) ++ [quote]))

end Text
end PageComposer
