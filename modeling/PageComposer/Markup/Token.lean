/-
# Markup as tokens

The text of a document is cut into character data, tags and the literal constructs.

| begins with | token | ends at |
| --- | --- | --- |
| `<` and a letter | start tag | `>` after the attributes; text if something else stands there |
| `</` | end tag, or a comment if no name follows | `>` |
| `<!--` | comment | `--`, blanks, `>` |
| `<?` | instruction | `>` |
| `<![` and a name | marked section | `]`, blanks, `]`, blanks, `>`; one bracket for `if`, `else`, `endif` |
| `<!doctype` | document type | `>` |
| `<!` otherwise | comment | `>` |
| `&` | a character reference | see `PageComposer.Markup.Entity` |

After the start tag of a `script` or a `style` everything is character data up to the end tag of
that name; if there is none, the rest is dropped.

The text is gone through twice. The first pass stops at a construct that does not end; the second
goes on from there and takes the beginning of such a construct as character data.
-/

import PageComposer.Markup.Entity
import PageComposer.Text.Case

namespace PageComposer
namespace Markup

/-- A piece of markup. The texts are as written, references apart; that of a document type leaves
out the word `doctype` and one character more. -/
inductive Token where
  | text (s : List Char)
  | startTag (name : String) (attrs : List (String × String)) (closed : Bool)
  | endTag (name : String)
  | comment (s : List Char)
  | instruction (s : List Char)
  | doctype (s : List Char)
  | marked (s : List Char)
  deriving Repr, DecidableEq, Inhabited

/-- Why markup cannot be read. -/
inductive Fault where
  | unknownSection (keyword : String)
  | unnamedSection (near : String)
  | numeral (fault : Decimal.NumeralFault)
  deriving Repr, DecidableEq, Inhabited

/-- The words for a fault. -/
def Fault.message : Fault → String
  | .numeral f => f.message
  | .unknownSection keyword =>
    rejected ("unknown status keyword " ++ Text.quoted keyword ++ " in marked section")
  | .unnamedSection near => rejected ("expected name token at " ++ Text.quoted near)
where
  /-- A document that the parser refuses. -/
  rejected (reason : String) : String :=
    "Markup rejected by parser: The markup you provided was rejected by the parser. " ++
      "Trying a different parser or a different encoding may help.\n\n" ++
      "Original exception(s) from parser:\n AssertionError: " ++ reason

/-- The elements whose content is character data alone. -/
def rawElements : List String := ["script", "style"]

/-! ## Start tags -/

/-- What may stand in the name of a tag. -/
def isTagNameChar (c : Char) : Bool :=
  !(c == '\t' || c == '\n' || c == '\r' || c == '\x0c' || c == ' ' || c == '/' || c == '>' ||
    c == '\x00')

/-- A quote. -/
def isQuote (c : Char) : Bool := c == '"' || c == '\''

/-- What follows blanks and slashes; a slash right before `>` stays. -/
def skipGap : List Char → List Char
  | [] => []
  | '/' :: rest =>
    match rest with
    | '>' :: _ => '/' :: rest
    | _ => skipGap rest
  | c :: rest => if Text.isBlank c then skipGap rest else c :: rest

theorem length_skipGap_le (cs : List Char) : (skipGap cs).length ≤ cs.length := by
  fun_induction skipGap cs <;> simp_all <;> omega

/-- What may stand in an attribute name after its first character. -/
def isAttrNameChar (c : Char) : Bool :=
  !(Text.isBlank c || c == '/' || c == '=' || c == '>')

/-- A value without quotes. -/
def takeBare (cs : List Char) : List Char × List Char :=
  let v := cs.takeWhile fun c => !(c == '>' || Text.isBlank c)
  (v, cs.drop v.length)

/-- A value in the quotes that `cs` begins with, none if they are not closed. -/
def takeQuoted? (quote : Char) (cs : List Char) : Option (List Char × List Char) :=
  let v := cs.takeWhile (· != quote)
  match cs.drop v.length with
  | _ :: rest => some (v, rest)
  | [] => none

/-- An equals sign and a value, if they follow: the value, whether it stood in quotes, and what is
left. Where a quote is not closed, the value is what stands before it: nothing if blanks do, and
from the last equals sign on if there are several. -/
def takeValue? (cs : List Char) : Option (List Char × Bool × List Char) :=
  let afterBlanks := cs.dropWhile Text.isBlank
  let signs := afterBlanks.takeWhile (· == '=')
  if signs.isEmpty then none
  else
    let afterSigns := afterBlanks.drop signs.length
    let blanks := afterSigns.takeWhile Text.isBlank
    let body := afterSigns.drop blanks.length
    let bare (from_ : List Char) :=
      let (v, rest) := takeBare from_
      some (v, false, rest)
    match body with
    | [] => bare body
    | c :: rest =>
      if isQuote c then
        match takeQuoted? c rest with
        | some (v, rest) => some (v, true, rest)
        | none =>
          if !blanks.isEmpty then some ([], false, ' ' :: body)
          else if signs.length > 1 then bare ('=' :: body)
          else none
      else bare body

/-- The attributes that follow, with what is left after the gap behind them. An attribute begins
after a blank, a slash or a quote (`ready`). Every attribute takes at least one character, so `fuel`
above the length of the text is enough. -/
def takeAttrs (fuel : Nat) (ready : Bool) (cs : List Char) :
    List (List Char × List Char) × List Char :=
  match fuel, cs with
  | 0, cs => ([], cs)
  | _ + 1, [] => ([], [])
  | fuel + 1, c :: rest =>
    if !ready || Text.isBlank c || c == '/' || c == '>' then ([], c :: rest)
    else
      let more := rest.takeWhile isAttrNameChar
      let name := c :: more
      let afterName := rest.drop more.length
      let (value, quoted, afterValue) :=
        match takeValue? afterName with
        | some (v, quoted, r) => (v, quoted, r)
        | none => ([], isQuote (name.getLastD c), afterName)
      let next := skipGap afterValue
      let moved := next.length < afterValue.length
      let (attrs, left) := takeAttrs fuel (moved || quoted) next
      ((name, value) :: attrs, left)

/-- What a construct at the beginning of the text is. -/
inductive Construct where
  /-- It is complete. -/
  | whole (tokens : List Token) (rest : List Char)
  /-- It does not end. -/
  | incomplete
  deriving Repr, Inhabited

/-- What stands in `cs` before `rest`, a tail of it. -/
def before (cs rest : List Char) : List Char :=
  cs.take (cs.length - rest.length)

/-- A start tag; `cs` begins with the letter after `<`. -/
def startTag (cs : List Char) : Except Fault Construct := do
  let name := cs.takeWhile isTagNameChar
  let afterName := cs.drop name.length
  let gap := skipGap afterName
  let ready := gap.length < afterName.length ||
    (name.getLast?.any fun c => isQuote c || Text.isBlank c)
  let (attrs, rest) := takeAttrs (gap.length + 1) ready gap
  let tag (closed : Bool) (rest : List Char) : Except Fault Construct := do
    let attrs ← attrs.mapM fun (n, v) => do
      match decodeValue v with
      | .ok v => pure (String.ofList (Text.lowered n), String.ofList v)
      | .error f => throw (Fault.numeral f)
    pure (.whole [.startTag (String.ofList (Text.lowered name)) attrs closed] rest)
  match rest with
  | [] => pure .incomplete
  | '>' :: rest => tag false rest
  | '/' :: rest => tag true (rest.drop 1)
  | c :: _ =>
    if Text.isAsciiLetter c || c == '=' then pure .incomplete
    else pure (.whole [.text ('<' :: before cs rest)] rest)

/-! ## End tags and literal constructs -/

/-- What stands before the first `c`, and what follows it. -/
def splitAt? (c : Char) (cs : List Char) : Option (List Char × List Char) :=
  let head := cs.takeWhile (· != c)
  match cs.drop head.length with
  | _ :: rest => some (head, rest)
  | [] => none

/-- What may stand in the name of a plain end tag after its first letter. -/
def isEndNameChar (c : Char) : Bool :=
  Text.isAsciiAlnum c || c == '-' || c == '.' || c == ':' || c == '_'

/-- The name of a plain end tag, given what stands between `</` and `>`. -/
def plainEndName? (inner : List Char) : Option (List Char) :=
  let body := inner.dropWhile Text.isBlank
  match body with
  | c :: _ =>
    let name := body.takeWhile isEndNameChar
    if Text.isAsciiLetter c && (body.drop name.length).all Text.isBlank then some name else none
  | [] => none

/-- An end tag; `cs` follows `</`. -/
def endTag (cs : List Char) : Construct :=
  match splitAt? '>' cs with
  | none => .incomplete
  | some (inner, rest) =>
    match plainEndName? inner with
    | some name => .whole [.endTag (String.ofList (Text.lowered name))] rest
    | none =>
      match inner with
      | [] => .whole [] rest
      | c :: _ =>
        if Text.isAsciiLetter c then
          .whole [.endTag (String.ofList (Text.lowered (inner.takeWhile isTagNameChar)))] rest
        else .whole [.comment inner] rest

/-- What follows `]`, perhaps another `]`, and `>`, with blanks between them. -/
def afterBrackets? (double : Bool) (cs : List Char) : Option (List Char) :=
  match cs with
  | ']' :: rest =>
    let rest := rest.dropWhile Text.isBlank
    let rest? := if double then
        match rest with
        | ']' :: rest => some (rest.dropWhile Text.isBlank)
        | _ => none
      else some rest
    match rest? with
    | some ('>' :: rest) => some rest
    | _ => none
  | _ => none

/-- What follows `--`, blanks and `>`. -/
def afterDashes? (cs : List Char) : Option (List Char) :=
  match cs with
  | '-' :: '-' :: rest =>
    match rest.dropWhile Text.isBlank with
    | '>' :: rest => some rest
    | _ => none
  | _ => none

/-- What stands before the first place where `close` matches, and what it leaves. -/
def splitBefore? (close : List Char → Option (List Char)) :
    List Char → Option (List Char × List Char)
  | [] => (close []).map ([], ·)
  | c :: cs =>
    match close (c :: cs) with
    | some rest => some ([], rest)
    | none => (splitBefore? close cs).map fun (s, rest) => (c :: s, rest)

/-- A construct that ends where `close` matches. -/
def upTo (close : List Char → Option (List Char)) (token : List Char → Token) (cs : List Char) :
    Construct :=
  match splitBefore? close cs with
  | some (s, rest) => .whole [token s] rest
  | none => .incomplete

/-- What follows `>`. -/
def afterAngle? : List Char → Option (List Char)
  | '>' :: rest => some rest
  | _ => none

/-- What may stand in the name of a marked section after its first letter. -/
def isSectionNameChar (c : Char) : Bool :=
  Text.isAsciiAlnum c || c == '-' || c == '_' || c == '.'

/-- A marked section; `cs` follows `<![`. -/
def markedSection (cs : List Char) : Except Fault Construct :=
  match cs with
  | [] => .ok .incomplete
  | c :: _ =>
    if Text.isAsciiLetter c then
      let name := cs.takeWhile isSectionNameChar
      let afterName := cs.drop name.length
      let rest := afterName.dropWhile Text.isBlank
      if rest.isEmpty then .ok .incomplete
      else
        let word := String.ofList (Text.lowered name)
        if ["temp", "cdata", "ignore", "include", "rcdata"].contains word then
          .ok (upTo (afterBrackets? true) .marked cs)
        else if ["if", "else", "endif"].contains word then
          .ok (upTo (afterBrackets? false) .marked cs)
        else .error (.unknownSection (String.ofList (before cs rest)))
    else .error (.unnamedSection (String.ofList (("<![".toList ++ cs).take 20)))

/-- A declaration; `cs` follows `<!`. -/
def declaration (cs : List Char) : Except Fault Construct :=
  match cs with
  | '-' :: '-' :: rest => .ok (upTo afterDashes? .comment rest)
  | '[' :: rest => markedSection rest
  | _ =>
    if Text.lowered (cs.take 7) == "doctype".toList then
      .ok (upTo afterAngle? (fun s => .doctype (s.drop 1)) (cs.drop 7))
    else .ok (upTo afterAngle? .comment cs)

/-! ## Character references in text -/

/-- A character reference; `cs` follows `&`. None where it has no end that shows what it is. -/
def textReference? (cs : List Char) :
    Except Fault (Option (List Char × List Char)) :=
  match cs with
  | '#' :: rest =>
    let ds := rest.takeWhile Text.isAsciiDigit
    if !ds.isEmpty then
      match rest.drop ds.length with
      | [] => .ok none
      | c :: tail =>
        if Text.isHexDigit c then .ok none
        else
          match Decimal.boundedOfDigits (ds.filterMap Text.digitValue?) with
          | .ok n => .ok (some ([numbered n], (takeSemicolon (c :: tail)).2))
          | .error f => .error (.numeral f)
    else
      match rest with
      | x :: rest =>
        let hs := rest.takeWhile Text.isHexDigit
        match rest.drop hs.length with
        | [] => .ok none
        | c :: tail =>
          if (x == 'x' || x == 'X') && !hs.isEmpty then
            .ok (some ([numbered (hexNumber hs)], (takeSemicolon (c :: tail)).2))
          else .ok none
      | [] => .ok none
  | c :: _ =>
    if Text.isAsciiLetter c then
      let isNameChar (c : Char) := Text.isAsciiAlnum c || c == '-' || c == '.'
      let run := cs.takeWhile isNameChar
      match cs.drop run.length with
      | next :: tail => .ok (some (namedInText run, (takeSemicolon (next :: tail)).2))
      | [] =>
        -- at the end of the text the name ends before its last hyphen or point
        let name := (run.reverse.dropWhile Text.isAsciiAlnum).drop 1 |>.reverse
        if name.isEmpty then .ok none else .ok (some (namedInText name, cs.drop name.length))
    else .ok none
  | [] => .ok none
where
  /-- A name in running text; an unknown one stays with its ampersand. -/
  namedInText (name : List Char) : List Char :=
    match entity? (String.ofList name) with
    | some e => e.text
    | none => '&' :: name

/-! ## Passes -/

/-- How a pass goes on. -/
inductive Step where
  /-- Some tokens were taken; the name is that of an element with raw content, if one begins. -/
  | go (tokens : List Token) (raw : Option String) (rest : List Char)
  /-- The pass stops here. -/
  | stop (tokens : List Token) (rest : List Char)
  deriving Repr, Inhabited

/-- The name of the element whose raw content the tokens open. -/
def opensRaw (tokens : List Token) : Option String :=
  match tokens.getLast? with
  | some (.startTag name _ false) => if rawElements.contains name then some name else none
  | _ => none

/-- The beginning of a construct without an end, taken as character data: up to the next `>`, else
up to the next `<`, else one character. `cs` follows `<`. -/
def takeUnfinished (cs : List Char) : List Char × List Char :=
  match splitAt? '>' cs with
  | some (s, rest) => ('<' :: (s ++ ['>']), rest)
  | none =>
    let s := cs.takeWhile (· != '<')
    if s.length < cs.length then ('<' :: s, cs.drop s.length) else (['<'], cs)

/-- One step at a `<`; `cs` follows it. -/
def tagStep (last : Bool) (cs : List Char) : Except Fault Step := do
  let construct? ← match cs with
    | '/' :: rest => pure (some (endTag rest))
    | '?' :: rest => pure (some (upTo afterAngle? .instruction rest))
    | '!' :: rest => some <$> declaration rest
    | c :: _ => if Text.isAsciiLetter c then some <$> startTag cs else pure none
    | [] => pure none
  match construct? with
  | some (.whole tokens rest) => pure (.go tokens (opensRaw tokens) rest)
  | some .incomplete =>
    if last then
      let (s, rest) := takeUnfinished cs
      pure (.go [.text s] none rest)
    else pure (.stop [] ('<' :: cs))
  | none => if cs.isEmpty then pure (.stop [] ['<']) else pure (.go [.text ['<']] none cs)

/-- One step at an `&`; `cs` follows it. -/
def referenceStep (last : Bool) (cs : List Char) : Except Fault Step := do
  match ← textReference? cs with
  | some (s, rest) => pure (.go [.text s] none rest)
  | none =>
    match cs with
    | [] => pure (.stop [] ['&'])
    | '#' :: rest =>
      if rest.contains ';' then pure (.stop [.text ['&', '#']] rest)
      else pure (.stop [] ('&' :: cs))
    | c :: rest =>
      if Text.isAsciiLetter c then
        if last && rest.isEmpty then pure (.stop [] cs) else pure (.stop [] ('&' :: cs))
      else pure (.go [.text ['&']] none cs)

/-- One step outside raw content; `cs` is not empty. -/
def step (last : Bool) (cs : List Char) : Except Fault Step :=
  match cs with
  | '<' :: rest => tagStep last rest
  | '&' :: rest => referenceStep last rest
  | _ =>
    let s := cs.takeWhile fun c => !(c == '<' || c == '&')
    .ok (.go [.text s] none (cs.drop s.length))

/-- Whether `c` is a form of the small ASCII letter `letter` in any case. -/
def isCaseOf (letter c : Char) : Bool :=
  Text.lowered [c] == [letter] || (letter == 's' && c.toNat == 0x17f) ||
    (letter == 'i' && (c.toNat == 0x131 || c.toNat == 0x130))

/-- What follows the name of an element in any case. -/
def afterName? : List Char → List Char → Option (List Char)
  | [], cs => some cs
  | _ :: _, [] => none
  | n :: name, c :: rest => if isCaseOf n c then afterName? name rest else none

/-- What follows the end of raw content. -/
def afterRawEnd? (name : List Char) (cs : List Char) : Option (List Char) :=
  match cs with
  | '<' :: '/' :: rest =>
    match afterName? name (rest.dropWhile Text.isBlank) with
    | some rest =>
      match rest.dropWhile Text.isBlank with
      | '>' :: rest => some rest
      | _ => none
    | none => none
  | _ => none

/-- One step in the raw content of the element `name`. An end whose name is not ASCII is character
data and the content goes on. -/
def rawStep (name : String) (cs : List Char) : Step :=
  match splitBefore? (afterRawEnd? name.toList) cs with
  | none => .stop [] cs
  | some (s, rest) =>
    let data := if s.isEmpty then [] else [Token.text s]
    let close := before (cs.drop s.length) rest
    match plainEndName? (close.drop 2).dropLast with
    | some n => .go (data ++ [.endTag (String.ofList (Text.lowered n))]) none rest
    | none => .go (data ++ [.text close]) (some name) rest

/-- A pass over the text from a given mode: the tokens, the mode at its end and what it leaves. Every
step shortens the text, so `fuel` above its length is enough. -/
def pass (last : Bool) (fuel : Nat) (raw : Option String) (cs : List Char) :
    Except Fault (List Token × Option String × List Char) :=
  match fuel, cs with
  | 0, cs => .ok ([], raw, cs)
  | _ + 1, [] => .ok ([], raw, [])
  | fuel + 1, c :: cs => do
    let next ← match raw with
      | some name => pure (rawStep name (c :: cs))
      | none => step last (c :: cs)
    match next with
    | .go tokens raw rest => do
      let (more, raw, left) ← pass last fuel raw rest
      pure (tokens ++ more, raw, left)
    | .stop tokens rest => pure (tokens, raw, rest)

/-- The tokens of a text. -/
def tokens (s : String) : Except Fault (List Token) := do
  let cs := s.toList
  let (first, raw, rest) ← pass false (cs.length + 1) none cs
  let (second, raw, rest) ← pass true (rest.length + 1) raw rest
  let tail := if raw.isNone && !rest.isEmpty then [Token.text rest] else []
  pure (first ++ second ++ tail)

end Markup
end PageComposer
