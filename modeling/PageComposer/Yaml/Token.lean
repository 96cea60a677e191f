/-
# The tokens of a YAML text

Indentation becomes tokens: a collection that is more indented than the one around it begins with a
start token and ends with `blockEnd` where the text is less indented again.

A key is known as such only by the `:` behind it. So each token that could be one is noted, and the
`key` token goes before it when the `:` comes. It has to come on the same line and within 1024
characters; where the indentation allows nothing but a key, its absence is a fault.

Tokens that a fault comes too early for are not given out: those from the first noted one on, and all
that were found together with the fault.
-/

import PageComposer.Yaml.Scalar

namespace PageComposer
namespace Yaml

/-- What a line that begins with `%` says. -/
inductive Directive where
  | version (major minor : Nat)
  | tag (handle uri : String)
  | unknown
  deriving Repr, DecidableEq, Inhabited

/-- A tag as it is written: a handle, unless it is written in full, and what follows. -/
structure TagText where
  handle : Option String
  suffix : String
  deriving Repr, DecidableEq, Inhabited

/-- A token. -/
inductive Token where
  | streamEnd
  | directive (d : Directive)
  | documentStart
  | documentEnd
  | blockSequenceStart
  | blockMappingStart
  | blockEnd
  | flowSequenceStart
  | flowSequenceEnd
  | flowMappingStart
  | flowMappingEnd
  | flowEntry
  | blockEntry
  | key
  | value
  | alias (name : String)
  | anchor (name : String)
  | tag (t : TagText)
  | scalar (text : String) (plain : Bool)
  deriving Repr, DecidableEq, Inhabited

/-! ## Names, tags and directives -/

/-- What names of anchors, handles and directives are made of. -/
def isNameChar (c : Char) : Bool := Text.isAsciiAlnum c || c == '-' || c == '_'

/-- What a tag may hold beside names and escapes. -/
def isTagChar (c : Char) : Bool :=
  isNameChar c || ";/?:@&=+$,.!~*'()[]".toList.contains c

/-- The bytes written by percent signs and two hexadecimal digits each. -/
def escapedBytes : Nat → Cursor → Except Fault (List UInt8 × Cursor)
  | 0, c => .ok ([], c)
  | fuel + 1, c =>
    if c.here == '%' then
      match Text.hexValue? (c.peek 1), Text.hexValue? (c.peek 2) with
      | some a, some b =>
        match escapedBytes fuel (c.skip 3) with
        | .error f => .error f
        | .ok (bs, c) => .ok (UInt8.ofNat (16 * a + b) :: bs, c)
      | _, _ => .error .token
    else .ok ([], c)

/-- The tag text here, without a handle, and whether anything was there. -/
def tagChars : Nat → Cursor → Except Fault ((List Char × Bool) × Cursor)
  | 0, c => .ok (([], false), c)
  | fuel + 1, c =>
    let (cs, c) := c.takeWhile isTagChar
    if c.here == '%' then
      match escapedBytes (c.rest.length + 1) c with
      | .error f => .error f
      | .ok (bs, c) =>
        match String.fromUTF8? ⟨bs.toArray⟩ with
        | none => .error .token
        | some s =>
          match tagChars fuel c with
          | .error f => .error f
          | .ok ((more, _), c) => .ok ((cs ++ s.toList ++ more, true), c)
    else .ok ((cs, !cs.isEmpty), c)

/-- The tag text here, without a handle; it is not empty. -/
def tagUri (c : Cursor) : Except Fault (String × Cursor) :=
  match tagChars (c.rest.length + 1) c with
  | .error f => .error f
  | .ok ((_, false), _) => .error .token
  | .ok ((cs, true), c) => .ok (String.ofList cs, c)

/-- The handle here: an exclamation mark, or a name between two of them. -/
def tagHandle (c : Cursor) : Except Fault (String × Cursor) :=
  if c.here != '!' then .error .token
  else if c.peek 1 == ' ' then .ok ("!", c.next)
  else
    let (name, behind) := c.next.takeWhile isNameChar
    if behind.here == '!' then .ok (String.ofList ('!' :: name ++ ['!']), behind.next)
    else .error .token

/-- The tag here. -/
def tagText (c : Cursor) : Except Fault (TagText × Cursor) := do
  let (t, c) ←
    if c.peek 1 == '<' then do
      let (uri, c) ← tagUri (c.skip 2)
      if c.here == '>' then pure ((⟨none, uri⟩ : TagText), c.next) else throw .token
    else if isBlankOrEnd (c.peek 1) then pure (⟨none, "!"⟩, c.next)
    else do
      let word := c.next.rest.takeWhile fun ch => !isSpaceOrEnd ch
      let (handle, c) ← if word.contains '!' then tagHandle c else pure ("!", c.next)
      let (uri, c) ← tagUri c
      pure (⟨some handle, uri⟩, c)
  if isSpaceOrEnd c.here then pure (t, c) else throw .token

/-- A name behind `&` or `*`. -/
def anchorName (c : Cursor) : Except Fault (String × Cursor) :=
  let (name, c) := c.next.takeWhile isNameChar
  if name.isEmpty then .error .token
  else if isBlankOrEnd c.here || "?:,]\x7d%@".toList.contains c.here || c.here == '\x60' then
    .ok (String.ofList name, c)
  else .error .token

/-- A number in a directive. -/
def directiveNumber (c : Cursor) : Except Fault (Nat × Cursor) :=
  let (ds, c) := c.takeWhile Text.isAsciiDigit
  if ds.isEmpty then .error .token
  else
    match Decimal.boundedOfDigits (ds.map fun d => d.toNat - 48) with
    | .ok n => .ok (n, c)
    | .error f => .error (.numeral f)

/-- The directive here. -/
def directive (c : Cursor) : Except Fault (Directive × Cursor) := do
  let (name, c) := c.next.takeWhile isNameChar
  if name.isEmpty || !isSpaceOrEnd c.here then throw .token
  let spaceless (c : Cursor) : Cursor := c.dropWhile (· == ' ')
  let (d, c) ←
    if name == "YAML".toList then do
      let (major, c) ← directiveNumber (spaceless c)
      if c.here != '.' then throw .token
      let (minor, c) ← directiveNumber c.next
      if isSpaceOrEnd c.here then pure (Directive.version major minor, c) else throw .token
    else if name == "TAG".toList then do
      let (handle, c) ← tagHandle (spaceless c)
      if c.here != ' ' then throw .token
      let (uri, c) ← tagUri (spaceless c)
      if isSpaceOrEnd c.here then pure (Directive.tag handle uri, c) else throw .token
    else pure (Directive.unknown, c.dropWhile fun ch => !isBreakOrEnd ch)
  return (d, ← restOfLine c)

/-! ## The lexer -/

/-- A token that a `:` may make a key. -/
structure KeyMark where
  /-- The number of the token. -/
  number : Nat
  /-- Whether nothing but a key may stand there. -/
  required : Bool
  place : Cursor
  deriving Repr, Inhabited

/-- A text half read. -/
structure Lexer where
  cursor : Cursor
  tokens : Array Token := #[]
  /-- How many flow collections are open. -/
  flow : Int := 0
  /-- The column of the innermost block collection. -/
  indent : Int := -1
  /-- The columns of the block collections around it. -/
  indents : List Int := []
  /-- Whether a key may begin here. -/
  keyAllowed : Bool := true
  /-- The noted tokens by the number of open flow collections. -/
  marks : List (Int × KeyMark) := []
  finished : Bool := false
  deriving Repr, Inhabited

namespace Lexer

/-- Whether the text here is in a flow collection. -/
def inFlow (l : Lexer) : Bool := l.flow != 0

/-- The column here. -/
def column (l : Lexer) : Int := l.cursor.column

/-- The lexer with one more token. -/
def push (l : Lexer) (t : Token) : Lexer := { l with tokens := l.tokens.push t }

/-- The lexer `n` characters on. -/
def skip (l : Lexer) (n : Nat) : Lexer := { l with cursor := l.cursor.skip n }

/-- Whether the text has gone too far for a noted token to be a key. -/
def isStale (l : Lexer) (m : KeyMark) : Bool :=
  m.place.line != l.cursor.line || l.cursor.index - m.place.index > 1024

/-- The lexer without notes on tokens that can be keys no more. -/
def dropStale (l : Lexer) : Except Fault Lexer :=
  if l.marks.any fun m => l.isStale m.2 && m.2.required then .error .token
  else .ok { l with marks := l.marks.filter fun m => !l.isStale m.2 }

/-- The lexer without a note at this depth. -/
def dropMark (l : Lexer) : Except Fault Lexer :=
  match l.marks.lookup l.flow with
  | some m =>
    if m.required then .error .token
    else .ok { l with marks := l.marks.filter fun e => e.1 != l.flow }
  | none => .ok l

/-- The lexer with a note that the next token may be a key. -/
def markKey (l : Lexer) : Except Fault Lexer :=
  if l.keyAllowed then
    match l.dropMark with
    | .error f => .error f
    | .ok l =>
      let m : KeyMark := ⟨l.tokens.size, !l.inFlow && l.indent == l.column, l.cursor⟩
      .ok { l with marks := (l.flow, m) :: l.marks }
  else .ok l

/-- The open block collections that a column closes. -/
def unwindFrom (column : Int) (tokens : Array Token) (indent : Int) :
    List Int → Array Token × Int × List Int
  | [] => (tokens, indent, [])
  | outer :: rest =>
    if indent > column then unwindFrom column (tokens.push .blockEnd) outer rest
    else (tokens, indent, outer :: rest)

/-- The lexer with the block collections closed that a column closes. -/
def unwind (l : Lexer) (column : Int) : Lexer :=
  if l.inFlow then l
  else
    let r := unwindFrom column l.tokens l.indent l.indents
    { l with tokens := r.1, indent := r.2.1, indents := r.2.2 }

/-- The lexer with a block collection opened by `t` before token `number`, if `column` is more
indented. -/
def openBlock (l : Lexer) (column : Int) (number : Nat) (t : Token) : Lexer :=
  if l.indent < column then
    { l with indents := l.indent :: l.indents, indent := column,
             tokens := l.tokens.insertIdxIfInBounds number t }
  else l

/-- Spaces, comments and line breaks before the next token; a line break outside flow collections
allows a key. -/
def toNextToken : Nat → Lexer → Lexer
  | 0, l => l
  | fuel + 1, l =>
    let c := (l.cursor.dropWhile (· == ' ')).skipComment
    if isBreak c.here then
      toNextToken fuel
        { l with cursor := c.readBreak.2, keyAllowed := l.keyAllowed || !l.inFlow }
    else { l with cursor := c }

/-- A token that ends all block collections. -/
def edge (l : Lexer) (t : Token) (n : Nat) : Except Fault Lexer := do
  let l ← (l.unwind (-1)).dropMark
  return { (l.push t).skip n with keyAllowed := false }

/-- The end of the text. -/
def finish (l : Lexer) : Except Fault Lexer := do
  let l ← l.edge .streamEnd 0
  return { l with marks := [], finished := true }

/-- A directive. -/
def readDirective (l : Lexer) : Except Fault Lexer := do
  let l ← (l.unwind (-1)).dropMark
  let (d, c) ← directive l.cursor
  return { l.push (.directive d) with cursor := c, keyAllowed := false }

/-- The opening of a flow collection. -/
def openFlow (l : Lexer) (t : Token) : Except Fault Lexer := do
  let l ← l.markKey
  return { (l.push t).skip 1 with flow := l.flow + 1, keyAllowed := true }

/-- The closing of a flow collection. -/
def closeFlow (l : Lexer) (t : Token) : Except Fault Lexer := do
  let l ← l.dropMark
  return { (l.push t).skip 1 with flow := l.flow - 1, keyAllowed := false }

/-- A comma. -/
def readFlowEntry (l : Lexer) : Except Fault Lexer := do
  let l ← l.dropMark
  return { (l.push .flowEntry).skip 1 with keyAllowed := true }

/-- A dash. -/
def readBlockEntry (l : Lexer) : Except Fault Lexer := do
  if !l.inFlow && !l.keyAllowed then throw .token
  let l := if l.inFlow then l else
    let n := l.tokens.size
    l.openBlock l.column n .blockSequenceStart
  let l ← l.dropMark
  return { (l.push .blockEntry).skip 1 with keyAllowed := true }

/-- A question mark. -/
def readKey (l : Lexer) : Except Fault Lexer := do
  if !l.inFlow && !l.keyAllowed then throw .token
  let l := if l.inFlow then l else
    let n := l.tokens.size
    l.openBlock l.column n .blockMappingStart
  let l ← l.dropMark
  return { (l.push .key).skip 1 with keyAllowed := !l.inFlow }

/-- A colon: it makes the noted token a key, if there is one. -/
def readColon (l : Lexer) : Except Fault Lexer := do
  match l.marks.lookup l.flow with
  | some m =>
    let l := { l with marks := l.marks.filter fun e => e.1 != l.flow,
                      tokens := l.tokens.insertIdxIfInBounds m.number .key }
    let l := if l.inFlow then l else l.openBlock m.place.column m.number .blockMappingStart
    return { (l.push .value).skip 1 with keyAllowed := false }
  | none =>
    if !l.inFlow && !l.keyAllowed then throw .token
    let l := if l.inFlow then l else
      let n := l.tokens.size
      l.openBlock l.column n .blockMappingStart
    let l ← l.dropMark
    return { (l.push .value).skip 1 with keyAllowed := !l.inFlow }

/-- An alias, an anchor or a tag: what `read` finds here. -/
def readProperty {α : Type} (l : Lexer) (read : Cursor → Except Fault (α × Cursor))
    (token : α → Token) : Except Fault Lexer := do
  let l ← l.markKey
  let (a, c) ← read l.cursor
  return { l.push (token a) with cursor := c, keyAllowed := false }

/-- A block scalar. -/
def readBlock (l : Lexer) (folded : Bool) : Except Fault Lexer := do
  let l ← l.dropMark
  let s ← blockScalar folded l.indent l.cursor
  return { l.push (.scalar (String.ofList s.text) false) with
    cursor := s.cursor, keyAllowed := true }

/-- A quoted scalar. -/
def readQuoted (l : Lexer) (double : Bool) : Except Fault Lexer := do
  let l ← l.markKey
  let s ← quotedScalar double l.cursor
  return { l.push (.scalar (String.ofList s.text) false) with
    cursor := s.cursor, keyAllowed := false }

/-- A plain scalar. -/
def readPlain (l : Lexer) : Except Fault Lexer := do
  let l ← l.markKey
  let s := plainScalar l.inFlow (l.indent + 1) l.cursor
  return { l.push (.scalar (String.ofList s.text) true) with
    cursor := s.cursor, keyAllowed := s.atLineStart }

/-- What a plain scalar does not begin with. -/
def plainStoppers : List Char := "-?:,[]\x7b\x7d#&*!|>'\"%@".toList ++ ['\x60']

/-- Whether a plain scalar begins here. -/
def startsPlain (l : Lexer) : Bool :=
  let ch := l.cursor.here
  !(isBlankOrEnd ch || plainStoppers.contains ch) ||
    !isBlankOrEnd (l.cursor.peek 1) && (ch == '-' || !l.inFlow && (ch == '?' || ch == ':'))

/-- Whether a sign stands here that counts alone: in flow always, else with a blank behind it. -/
def isSign (l : Lexer) : Bool := l.inFlow || isBlankOrEnd (l.cursor.peek 1)

/-- The next token, and those that come with it. -/
def read (l : Lexer) : Except Fault Lexer := do
  let l := toNextToken (l.cursor.rest.length + 1) l
  let l ← l.dropStale
  let l := l.unwind l.column
  let c := l.cursor
  let ch := c.here
  if c.rest.isEmpty then l.finish
  else if ch == '%' && c.column == 0 then l.readDirective
  else if c.column == 0 && c.isSeparator '-' then l.edge .documentStart 3
  else if c.column == 0 && c.isSeparator '.' then l.edge .documentEnd 3
  else if ch == '[' then l.openFlow .flowSequenceStart
  else if ch == '\x7b' then l.openFlow .flowMappingStart
  else if ch == ']' then l.closeFlow .flowSequenceEnd
  else if ch == '\x7d' then l.closeFlow .flowMappingEnd
  else if ch == ',' then l.readFlowEntry
  else if ch == '-' && isBlankOrEnd (c.peek 1) then l.readBlockEntry
  else if ch == '?' && l.isSign then l.readKey
  else if ch == ':' && l.isSign then l.readColon
  else if ch == '*' then l.readProperty anchorName .alias
  else if ch == '&' then l.readProperty anchorName .anchor
  else if ch == '!' then l.readProperty tagText .tag
  else if ch == '|' && !l.inFlow then l.readBlock false
  else if ch == '>' && !l.inFlow then l.readBlock true
  else if ch == '\'' then l.readQuoted false
  else if ch == '"' then l.readQuoted true
  else if l.startsPlain then l.readPlain
  else throw .token

/-- The number of tokens that are certain: those before the first noted one. -/
def certain (l : Lexer) : Nat :=
  l.marks.foldl (fun n m => min n m.2.number) l.tokens.size

/-- The tokens up to the end of the text, or those that are certain before a fault. -/
def run : Nat → Lexer → List Token × Option Fault
  | 0, l => (l.tokens.toList, none)
  | fuel + 1, l =>
    if l.finished then (l.tokens.toList, none)
    else
      match l.read >>= dropStale with
      | .error f => (l.tokens.toList.take l.certain, some f)
      | .ok l => run fuel l

end Lexer

/-- The tokens of a text, or those that are certain before a fault. A byte order mark at the beginning
is skipped. Every step takes a character, so the length of the text bounds their number. -/
def tokens (cs : List Char) : List Token × Option Fault :=
  let c : Cursor := { rest := cs }
  let c := if c.here == '\ufeff' then c.next else c
  Lexer.run (cs.length + 2) { cursor := c }

end Yaml
end PageComposer
