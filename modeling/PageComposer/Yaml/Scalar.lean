/-
# Scalars as they are written

| style | ends at |
| --- | --- |
| plain | a `:` or a comment behind a blank, a less indented line, in flow also `,`, `?` and brackets |
| quoted | its quote; a document edge inside is a fault |
| block | a less indented line |

A single line break inside a plain or quoted scalar reads as a space, further ones as themselves. A
folded block does the same between lines that begin with neither space nor tab.

Loops take fuel; the number of characters left plus one is always enough.
-/

import PageComposer.Text.Class
import PageComposer.Yaml.Cursor
import PageComposer.Yaml.Fault

namespace PageComposer
namespace Yaml

/-- A scalar and the cursor behind it; `atLineStart` tells whether a plain scalar was followed by a
line break. -/
structure ScalarText where
  text : List Char
  cursor : Cursor
  atLineStart : Bool := false
  deriving Repr, Inhabited

/-- Line breaks as they are read between two lines of text: the first one alone is a space. -/
def foldBreaks (first more : List Char) : List Char :=
  if first != ['\n'] then first ++ more else if more.isEmpty then [' '] else more

/-! ## Plain scalars -/

/-- The line breaks here with the spaces before and after them; none if documents are parted on the
way. -/
def plainBreaks : Nat → Cursor → Option (List Char) × Cursor
  | 0, c => (some [], c)
  | fuel + 1, c =>
    if c.here == ' ' then plainBreaks fuel c.next
    else if isBreak c.here then
      let (br, c) := c.readBreak
      if c.isDocumentEdge then (none, c)
      else
        let (more, c) := plainBreaks fuel c
        (more.map (br ++ ·), c)
    else (some [], c)

/-- The blanks inside a plain scalar as they are read; none where they end it. -/
def plainSpaces (c : Cursor) : ScalarText :=
  let (spaces, c) := c.takeWhile (· == ' ')
  if isBreak c.here then
    let (br, c) := c.readBreak
    if c.isDocumentEdge then ⟨[], c, true⟩
    else
      match plainBreaks (c.rest.length + 1) c with
      | (none, c) => ⟨[], c, true⟩
      | (some more, c) => ⟨foldBreaks br more, c, true⟩
  else ⟨spaces, c, false⟩

/-- Whether a character may not stand in a plain scalar in flow. -/
def isFlowMark (c : Char) : Bool :=
  c == ',' || c == '?' || c == '[' || c == ']' || c == '\x7b' || c == '\x7d'

/-- Whether a colon followed by `next` ends a plain scalar. -/
def colonEnds (inFlow : Bool) (next : Char) : Bool :=
  isBlankOrEnd next || inFlow && isFlowMark next && next != '?'

/-- The piece of a plain scalar up to the next blank or to its end. -/
def plainPiece (inFlow : Bool) : List Char → List Char
  | [] => []
  | c :: rest =>
    if isBlankOrEnd c || inFlow && isFlowMark c ||
        c == ':' && colonEnds inFlow (rest.headD endMark) then []
    else c :: plainPiece inFlow rest

/-- The rest of a plain scalar that is indented by at least `indent`; `gap` is what is read before
it. -/
def plainFrom (inFlow : Bool) (indent : Int) : Nat → ScalarText → ScalarText
  | 0, s => { s with text := [] }
  | fuel + 1, s =>
    let piece := if s.cursor.here == '#' then [] else plainPiece inFlow s.cursor.rest
    if piece.isEmpty then { s with text := [] }
    else
      let gap := plainSpaces (s.cursor.skip piece.length)
      let c := gap.cursor
      if gap.text.isEmpty || c.here == '#' || !inFlow && (c.column : Int) < indent then
        { gap with text := s.text ++ piece }
      else
        let more := plainFrom inFlow indent fuel gap
        { more with text := s.text ++ piece ++ more.text }

/-- The plain scalar here. -/
def plainScalar (inFlow : Bool) (indent : Int) (c : Cursor) : ScalarText :=
  plainFrom inFlow indent (c.rest.length + 1) ⟨[], c, false⟩

/-! ## Quoted scalars -/

/-- The characters that are written by one letter behind a backslash. -/
def escapes : List (Char × Char) :=
  [('0', '\x00'), ('a', '\x07'), ('b', '\x08'), ('t', '\t'), ('\t', '\t'), ('n', '\n'),
    ('v', '\x0b'), ('f', '\x0c'), ('r', '\r'), ('e', '\x1b'), (' ', ' '), ('"', '"'),
    ('\\', '\\'), ('/', '/'), ('N', '\x85'), ('_', '\xa0'), ('L', '\u2028'), ('P', '\u2029')]

/-- The numbers of hexadecimal digits behind the letters that announce them. -/
def escapeWidths : List (Char × Nat) := [('x', 2), ('u', 4), ('U', 8)]

/-- The line breaks here with the blanks before and after them. -/
def quotedBreaks : Nat → Cursor → Except Fault (List Char × Cursor)
  | 0, c => .ok ([], c)
  | fuel + 1, c =>
    if c.isDocumentEdge then .error .token
    else
      let c := c.dropWhile fun ch => ch == ' ' || ch == '\t'
      if isBreak c.here then
        let (br, c) := c.readBreak
        match quotedBreaks fuel c with
        | .error f => .error f
        | .ok (more, c) => .ok (br ++ more, c)
      else .ok ([], c)

/-- The blanks inside a quoted scalar as they are read. -/
def quotedSpaces (c : Cursor) : Except Fault (List Char × Cursor) :=
  let (spaces, c) := c.takeWhile fun ch => ch == ' ' || ch == '\t'
  if c.here == endMark then .error .token
  else if isBreak c.here then
    let (br, c) := c.readBreak
    match quotedBreaks (c.rest.length + 1) c with
    | .error f => .error f
    | .ok (more, c) => .ok (foldBreaks br more, c)
  else .ok (spaces, c)

/-- The character or line breaks that a backslash announces; the cursor stands behind it. -/
def escaped (c : Cursor) : Except Fault (List Char × Cursor) :=
  match escapes.lookup c.here, escapeWidths.lookup c.here with
  | some ch, _ => .ok ([ch], c.next)
  | none, some width =>
    let digits := (c.next.rest.take width).map Text.hexValue?
    if digits.length == width && digits.all Option.isSome then
      let code := digits.foldl (fun n d => 16 * n + d.getD 0) 0
      if code ≥ 0x110000 then .error (.codePoint code)
      else if 0xd800 ≤ code && code < 0xe000 then .ok (['\ufffd'], c.next.skip width)
      else .ok ([Char.ofNat code], c.next.skip width)
    else .error .token
  | none, none =>
    if isBreak c.here then
      let (_, c) := c.readBreak
      quotedBreaks (c.rest.length + 1) c
    else .error .token

/-- The characters of a quoted scalar up to the next blank or to its quote. -/
def quotedPiece (double : Bool) : Nat → Cursor → Except Fault (List Char × Cursor)
  | 0, c => .ok ([], c)
  | fuel + 1, c =>
    let (cs, c) := c.takeWhile fun ch =>
      !(ch == '\'' || ch == '"' || ch == '\\' || isBlankOrEnd ch)
    let goOn (r : Except Fault (List Char × Cursor)) : Except Fault (List Char × Cursor) :=
      match r with
      | .error f => .error f
      | .ok (new, c) =>
        match quotedPiece double fuel c with
        | .error f => .error f
        | .ok (more, c) => .ok (cs ++ new ++ more, c)
    let ch := c.here
    if !double && ch == '\'' && c.peek 1 == '\'' then goOn (.ok (['\''], c.skip 2))
    else if double && ch == '\'' || !double && (ch == '"' || ch == '\\') then
      goOn (.ok ([ch], c.next))
    else if double && ch == '\\' then goOn (escaped c.next)
    else .ok (cs, c)

/-- What is left of a quoted scalar, its quote included. -/
def quotedFrom (double : Bool) : Nat → Cursor → Except Fault ScalarText
  | 0, _ => .error .token
  | fuel + 1, c =>
    match quotedPiece double (c.rest.length + 1) c with
    | .error f => .error f
    | .ok (piece, c) =>
      if c.here == (if double then '"' else '\'') then .ok ⟨piece, c.next, false⟩
      else
        match quotedSpaces c with
        | .error f => .error f
        | .ok (spaces, c) =>
          match quotedFrom double fuel c with
          | .error f => .error f
          | .ok s => .ok { s with text := piece ++ spaces ++ s.text }

/-- The quoted scalar here. -/
def quotedScalar (double : Bool) (c : Cursor) : Except Fault ScalarText :=
  quotedFrom double (c.rest.length + 1) c.next

/-! ## Block scalars -/

/-- What becomes of the line breaks at the end of a block. -/
inductive Chomp where
  | strip
  | clip
  | keep
  deriving Repr, DecidableEq, Inhabited

/-- The sign that says what becomes of the line breaks at the end. -/
def chomp? (c : Char) : Option Chomp :=
  if c == '+' then some .keep else if c == '-' then some .strip else none

/-- The header of a block: the sign and a digit for the indentation, in any order. -/
def blockHeader (c : Cursor) : Except Fault ((Chomp × Option Nat) × Cursor) :=
  let digit (c : Cursor) : Option Nat :=
    if Text.isAsciiDigit c.here then some (c.here.toNat - 48) else none
  let (chomp, c) := match chomp? c.here with
    | some s => (some s, c.next)
    | none => (none, c)
  let (width, c) := match digit c with
    | some d => (some d, c.next)
    | none => (none, c)
  let (chomp, c) := match chomp, width, chomp? c.here with
    | none, some 0, _ => (none, c)
    | none, some _, some s => (some s, c.next)
    | _, _, _ => (chomp, c)
  if width == some 0 || !isSpaceOrEnd c.here then .error .token
  else .ok ((chomp.getD .clip, width), c)

/-- The cursor behind a line of which only spaces and a comment are left. -/
def restOfLine (c : Cursor) : Except Fault Cursor :=
  let c := (c.dropWhile (· == ' ')).skipComment
  if isBreakOrEnd c.here then .ok c.readBreak.2 else .error .token

/-- The spaces and line breaks here: the breaks, and the most columns that spaces reach. -/
def blockIndentation : Nat → Nat → Cursor → (List Char × Nat) × Cursor
  | 0, most, c => (([], most), c)
  | fuel + 1, most, c =>
    if c.here == ' ' then
      let c := c.next
      blockIndentation fuel (max most c.column) c
    else if isBreak c.here then
      let (br, c) := c.readBreak
      let r := blockIndentation fuel most c
      ((br ++ r.1.1, r.1.2), r.2)
    else (([], most), c)

/-- The cursor behind spaces before column `indent`. -/
def skipIndent (indent : Nat) (c : Cursor) : Cursor :=
  c.skip (min (indent - c.column) (c.rest.takeWhile (· == ' ')).length)

/-- The line breaks here, with spaces before column `indent` around them. -/
def blockBreaks (indent : Nat) : Nat → Cursor → List Char × Cursor
  | 0, c => ([], c)
  | fuel + 1, c =>
    let c := skipIndent indent c
    if isBreak c.here then
      let (br, c) := c.readBreak
      let (more, c) := blockBreaks indent fuel c
      (br ++ more, c)
    else ([], c)

/-- The lines of a block that is indented by `indent`; `before` are the line breaks before the first
of them. -/
def blockLines (folded : Bool) (indent : Nat) (chomp : Chomp) :
    Nat → List Char → Cursor → List Char × Cursor
  | 0, _, c => ([], c)
  | fuel + 1, before, c =>
    let isText (ch : Char) : Bool := !(ch == ' ' || ch == '\t')
    let flush := isText c.here
    let (line, c) := c.takeWhile fun ch => !isBreakOrEnd ch
    let (br, c) := c.readBreak
    let (breaks, c) := blockBreaks indent (c.rest.length + 1) c
    if c.column == indent && c.here != endMark then
      let joint :=
        if folded && br == ['\n'] && flush && isText c.here then
          if breaks.isEmpty then [' '] else []
        else br
      let (more, c) := blockLines folded indent chomp fuel breaks c
      (before ++ line ++ joint ++ more, c)
    else
      let tail := match chomp with
        | .strip => []
        | .clip => br
        | .keep => br ++ breaks
      (before ++ line ++ tail, c)

/-- The block scalar here, inside a block that is indented by `outer`. -/
def blockScalar (folded : Bool) (outer : Int) (c : Cursor) : Except Fault ScalarText :=
  match blockHeader c.next with
  | .error f => .error f
  | .ok ((chomp, width), c) =>
    match restOfLine c with
    | .error f => .error f
    | .ok c =>
      let least := (max 1 (outer + 1)).toNat
      let fuel := c.rest.length + 1
      let ((breaks, indent), c) := match width with
        | none =>
          let r := blockIndentation fuel 0 c
          ((r.1.1, max least r.1.2), r.2)
        | some w =>
          let indent := least + w - 1
          let r := blockBreaks indent fuel c
          ((r.1, indent), r.2)
      if c.column == indent && c.here != endMark then
        let (text, c) := blockLines folded indent chomp fuel breaks c
        .ok ⟨text, c, false⟩
      else .ok ⟨if chomp == .keep then breaks else [], c, false⟩

end Yaml
end PageComposer
