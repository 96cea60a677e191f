/-
# A place in a YAML text

A cursor is what is left of the text, with the number of characters, lines and columns before it. The
text ends with a null character as it is seen from a cursor.

| character | effect on the place |
| --- | --- |
| line feed, next line, line and paragraph separator | a new line |
| carriage return | a new line, unless a line feed follows |
| byte order mark | none |
| the rest | one column |

A line break is read as a line feed, a line or paragraph separator as itself.
-/

namespace PageComposer
namespace Yaml

/-- What is left of a text, and where that is. -/
structure Cursor where
  rest : List Char
  index : Nat := 0
  line : Nat := 0
  column : Nat := 0
  deriving Repr, DecidableEq, Inhabited

/-- The character that stands for the end of the text. -/
def endMark : Char := '\x00'

/-- The line breaks. -/
def isBreak (c : Char) : Bool :=
  c == '\n' || c == '\r' || c == '\x85' || c == '\u2028' || c == '\u2029'

/-- A line break or the end of the text. -/
def isBreakOrEnd (c : Char) : Bool := isBreak c || c == endMark

/-- A space, a line break or the end of the text. -/
def isSpaceOrEnd (c : Char) : Bool := c == ' ' || isBreakOrEnd c

/-- A space, a tab, a line break or the end of the text. -/
def isBlankOrEnd (c : Char) : Bool := c == '\t' || isSpaceOrEnd c

namespace Cursor

/-- The character `k` places on. -/
def peek (c : Cursor) (k : Nat) : Char := c.rest.getD k endMark

/-- The character here. -/
def here (c : Cursor) : Char := c.peek 0

/-- One character on. -/
def next (c : Cursor) : Cursor :=
  match c.rest with
  | [] => c
  | ch :: rest =>
    if ch == '\r' then
      if rest.head? == some '\n' then
        { c with rest := rest, index := c.index + 1, column := c.column + 1 }
      else ⟨rest, c.index + 1, c.line + 1, 0⟩
    else if isBreak ch then ⟨rest, c.index + 1, c.line + 1, 0⟩
    else if ch == '\ufeff' then { c with rest := rest, index := c.index + 1 }
    else { c with rest := rest, index := c.index + 1, column := c.column + 1 }

/-- `n` characters on. -/
def skip (c : Cursor) : Nat → Cursor
  | 0 => c
  | n + 1 => c.next.skip n

/-- The characters here that `p` holds of, and the cursor behind them. -/
def takeWhile (c : Cursor) (p : Char → Bool) : List Char × Cursor :=
  let cs := c.rest.takeWhile p
  (cs, c.skip cs.length)

/-- The cursor behind the characters that `p` holds of. -/
def dropWhile (c : Cursor) (p : Char → Bool) : Cursor := (c.takeWhile p).2

/-- What a line break here is read as, and the cursor behind it; nothing where there is none. -/
def readBreak (c : Cursor) : List Char × Cursor :=
  match c.rest with
  | '\r' :: '\n' :: _ => (['\n'], c.skip 2)
  | ch :: _ =>
    if ch == '\u2028' || ch == '\u2029' then ([ch], c.next)
    else if isBreak ch then (['\n'], c.next)
    else ([], c)
  | [] => ([], c)

/-- Whether three characters that part documents stand here, and a blank or the end behind them. -/
def isSeparator (c : Cursor) (mark : Char) : Bool :=
  c.peek 0 == mark && c.peek 1 == mark && c.peek 2 == mark && isBlankOrEnd (c.peek 3)

/-- Whether documents are parted here. -/
def isDocumentEdge (c : Cursor) : Bool := c.isSeparator '-' || c.isSeparator '.'

/-- The cursor behind a comment, if one begins here. -/
def skipComment (c : Cursor) : Cursor :=
  if c.here == '#' then c.dropWhile fun ch => !isBreakOrEnd ch else c

end Cursor
end Yaml
end PageComposer
