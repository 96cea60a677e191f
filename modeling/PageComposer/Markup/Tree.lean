/-
# Markup as a document

Tokens become content items by way of the stack of open elements.

| token | effect |
| --- | --- |
| character data | collects until the next other token |
| start tag | opens an element; a void one, and one written `<x/>`, is closed at once |
| end tag | closes the innermost open element of that name and all inside it; ignored if none is open |
| the rest | a text leaf with the delimiters of its kind |

Collected text that is markup blanks alone becomes one line feed if it holds one, else one space,
outside `pre` and `textarea`. A text leaf has `&`, `<` and `>` escaped, outside `script` and `style`.
Nothing else is closed implicitly.
-/

import PageComposer.Document.Content
import PageComposer.Markup.Token

namespace PageComposer
namespace Markup

/-- The elements that never have content when they are read. -/
def voidWhenRead : List String :=
  ["area", "base", "br", "col", "embed", "hr", "img", "input", "keygen", "link", "menuitem", "meta",
    "param", "source", "track", "wbr", "basefont", "bgsound", "command", "frame", "image",
    "isindex", "nextid", "spacer"]

/-- The elements that keep blanks as they are. -/
def keepsBlanks : List String := ["pre", "textarea"]

/-- One character of a text leaf. -/
def escapedChar : Char → List Char
  | '&' => "&amp;".toList
  | '<' => "&lt;".toList
  | '>' => "&gt;".toList
  | c => [c]

/-- The characters of a text leaf. -/
def escaped (cs : List Char) : List Char := cs.flatMap escapedChar

/-- An open element with the items it has so far, the last one first. -/
structure Frame where
  name : String
  attrs : Attrs
  items : List Content
  deriving Repr, Inhabited

/-- A document half read. -/
structure Builder where
  /-- The open elements, the innermost first. -/
  opened : List Frame := []
  /-- The items outside every open element, the last one first. -/
  items : List Content := []
  /-- The collected character data, the last piece first. -/
  data : List (List Char) := []
  /-- The void elements, closed already, whose end tags are to be ignored. -/
  closed : List String := []
  deriving Repr, Inhabited

/-- The kinds of text leaves. -/
inductive Leaf where
  | text
  | comment
  | instruction
  | doctype
  | cdata
  | declaration
  deriving Repr, DecidableEq, Inhabited

namespace Builder

/-- An item at the end of the innermost open element. -/
def add (b : Builder) (item : Content) : Builder :=
  match b.opened with
  | [] => { b with items := item :: b.items }
  | f :: rest => { b with opened := { f with items := item :: f.items } :: rest }

/-- Blanks alone become one, unless an open element keeps them. -/
def collapse (b : Builder) (cs : List Char) : List Char :=
  if cs.all Text.isMarkupBlank && !b.opened.any (fun f => keepsBlanks.contains f.name) then
    if cs.contains '\n' then ['\n'] else [' ']
  else cs

/-- Whether text directly here is raw. -/
def isRaw (b : Builder) : Bool :=
  match b.opened with
  | [] => false
  | f :: _ => rawElements.contains f.name

/-- The leaf of a kind with its delimiters. -/
def leaf (b : Builder) (kind : Leaf) (cs : List Char) : Content :=
  .text (String.ofList (match kind with
    | .text => if b.isRaw then cs else escaped cs
    | .comment => "<!--".toList ++ cs ++ "-->".toList
    | .instruction => "<?".toList ++ cs ++ ">".toList
    | .doctype => "<!DOCTYPE ".toList ++ cs ++ ">".toList
    | .cdata => "<![CDATA[".toList ++ cs ++ "]]>".toList
    | .declaration => "<?".toList ++ cs ++ "?>".toList))

/-- The collected character data as a leaf, if there is any. -/
def flush (b : Builder) : Builder :=
  match b.data with
  | [] => b
  | pieces =>
    let cs := b.collapse pieces.reverse.flatten
    add { b with data := [] } (b.leaf .text cs)

/-- A literal construct. -/
def literal (b : Builder) (kind : Leaf) (cs : List Char) : Builder :=
  let b := b.flush
  b.add (b.leaf kind (b.collapse cs))

/-- The node of a closed element. -/
def close (f : Frame) : Content :=
  .node { tag := some f.name, attrs := f.attrs } f.items.reverse

/-- The innermost open element, closed. -/
def pop (b : Builder) : Builder :=
  match b.opened with
  | [] => b
  | f :: rest => add { b with opened := rest } (close f)

/-- The innermost open element of a name and all inside it, closed; `n` bounds how many. -/
def popThrough (b : Builder) (name : String) : Nat → Builder
  | 0 => b
  | n + 1 =>
    match b.opened with
    | [] => b
    | f :: _ => if f.name == name then b.pop else popThrough b.pop name n

/-- An end tag. -/
def endElement (b : Builder) (name : String) : Builder :=
  let b := b.flush
  if b.opened.any (fun f => f.name == name) then b.popThrough name b.opened.length else b

/-- An end tag as written: that of a void element closed already only uses that up. -/
def writtenEnd (b : Builder) (name : String) : Builder :=
  if b.closed.contains name then { b with closed := b.closed.erase name } else b.endElement name

/-- The value of an attribute; an empty one is a bare presence. -/
def attrValue (v : String) : AttrValue :=
  if v.isEmpty then .flag true else .text v

/-- `attrs` with one more, a repeated name keeping its place. -/
def putAttr : Attrs → String → AttrValue → Attrs
  | [], name, v => [(name, v)]
  | (n, w) :: rest, name, v => if n == name then (n, v) :: rest else (n, w) :: putAttr rest name v

/-- An element, opened. -/
def openElement (b : Builder) (name : String) (attrs : List (String × String)) : Builder :=
  let b := b.flush
  let attrs := attrs.foldl (fun acc a => putAttr acc a.1 (attrValue a.2)) []
  { b with opened := ⟨name, attrs, []⟩ :: b.opened }

/-- One token. -/
def take (b : Builder) : Token → Builder
  | .text s => { b with data := s :: b.data }
  | .startTag name attrs true => (b.openElement name attrs).endElement name
  | .startTag name attrs false =>
    let b := b.openElement name attrs
    if voidWhenRead.contains name then
      let b := b.endElement name
      { b with closed := name :: b.closed }
    else b
  | .endTag name => b.writtenEnd name
  | .comment s => b.literal .comment s
  | .instruction s => b.literal .instruction s
  | .doctype s => b.literal .doctype s
  | .marked s =>
    if Text.lowered (s.take 6) == "cdata[".toList then b.literal .cdata (s.drop 6)
    else b.literal .declaration s

/-- The document, all elements closed. -/
def finish (b : Builder) : List Content :=
  let b := b.flush
  (b.opened.foldl (fun b _ => b.pop) b).items.reverse

end Builder

/-- The document that a text writes. -/
def parse (s : String) : Except Fault (List Content) := do
  let ts ← tokens s
  pure (ts.foldl Builder.take {}).finish

end Markup
end PageComposer
