/-
# Placeholders inside attribute values

A placeholder inside an attribute value never becomes a node, so it is replaced in the source text,
before that is parsed:

`class="btn <yield name="kind">plain</yield> wide"`

| part | form |
| --- | --- |
| attribute | a name of word characters, `:` and `-`, then `="` |
| before the placeholder | no double quote |
| placeholder | `<yield`, blanks, `name=`, a quoted name, anything up to `>`, text without `<`, `</yield>` |
| after the placeholder | no double quote, then a double quote |

The last placeholder that fits decides the slot; every placeholder of that name in the value is
replaced by the flattened content of the slot, or by the text written in the deciding one if the slot
is not bound. Everything else is left as it is.
-/

import PageComposer.Document.Flatten
import PageComposer.Document.Slots

namespace PageComposer
namespace AttributeSlots

/-- What follows `word` if the text begins with it. -/
def after? : List Char → List Char → Option (List Char)
  | [], cs => some cs
  | _ :: _, [] => none
  | w :: word, c :: cs => if w == c then after? word cs else none

/-- What follows the first `c`. -/
def afterFirst? (c : Char) : List Char → Option (List Char)
  | [] => none
  | x :: cs => if x == c then some cs else afterFirst? c cs

/-- A quote around a slot name. -/
def isQuote (c : Char) : Bool := c == '"' || c == '\''

/-- A placeholder at the beginning of a text. -/
structure Written where
  /-- The name of the slot. -/
  name : List Char
  /-- The text that stands for an unbound slot. -/
  ownText : List Char
  /-- What follows the placeholder. -/
  rest : List Char
  deriving Repr, DecidableEq, Inhabited

/-- The placeholder that a text begins with. -/
def placeholder? (cs : List Char) : Option Written := do
  let afterTag ← after? "<yield".toList cs
  let body := afterTag.dropWhile Text.isBlank
  if body.length == afterTag.length then none
  else
    let quoted ← after? "name=".toList body
    match quoted with
    | [] => none
    | q :: named =>
      let name := named.takeWhile fun c => !isQuote c
      if !isQuote q || name.isEmpty then none
      else
        -- the name runs up to its closing quote or to the end of the text
        let inner ← afterFirst? '>' ((named.drop name.length).drop 1)
        let own := inner.takeWhile (· != '<')
        let rest ← after? "</yield>".toList (inner.drop own.length)
        pure ⟨name, own, rest⟩

/-- An attribute value with a placeholder in it. -/
structure Splice where
  /-- The whole value. -/
  value : List Char
  /-- The name of the slot. -/
  name : List Char
  /-- The text that stands for an unbound slot. -/
  ownText : List Char
  /-- What follows the closing quote of the value. -/
  rest : List Char
  deriving Repr, DecidableEq, Inhabited

/-- The value that ends after the placeholder at the beginning of a text. -/
def spliceHere? (cs : List Char) : Option Splice := do
  let p ← placeholder? cs
  let rest ← afterFirst? '"' p.rest
  pure ⟨cs.take (cs.length - rest.length - 1), p.name, p.ownText, rest⟩

/-- The attribute value at the beginning of a text, by its last placeholder. -/
def splice? : List Char → Option Splice
  | [] => none
  | c :: cs =>
    if c == '"' then none
    else
      match splice? cs with
      | some s => some { s with value := c :: s.value }
      | none => spliceHere? (c :: cs)

/-- A value with every placeholder of one name replaced. Every round takes a character, so `fuel`
above the length of the value is enough. -/
def replaceAll (name replacement : List Char) : Nat → List Char → List Char
  | 0, cs => cs
  | _ + 1, [] => []
  | fuel + 1, c :: cs =>
    match placeholder? (c :: cs) with
    | some p =>
      if p.name == name then replacement ++ replaceAll name replacement fuel p.rest
      else c :: replaceAll name replacement fuel cs
    | none => c :: replaceAll name replacement fuel cs

/-- What may stand in the name of an attribute. -/
def isNameChar (c : Char) : Bool := Text.isWord c || c == ':' || c == '-'

/-- What stands for a placeholder. -/
def replacementFor (slots : SlotMap) (s : Splice) : List Char :=
  match slots.get? (String.ofList s.name) with
  | some content => (Content.flatten content).toList
  | none => s.ownText

/-- A source text with the placeholders inside its attribute values replaced. Every round takes a
character, so `fuel` above the length of the text is enough. -/
def rewriteFrom (slots : SlotMap) : Nat → List Char → List Char
  | 0, cs => cs
  | _ + 1, [] => []
  | fuel + 1, c :: cs =>
    let name := (c :: cs).takeWhile isNameChar
    if name.isEmpty then c :: rewriteFrom slots fuel cs
    else
      let afterName := (c :: cs).drop name.length
      match after? "=\"".toList afterName with
      | none => name ++ rewriteFrom slots fuel afterName
      | some value =>
        match splice? value with
        | none => name ++ rewriteFrom slots fuel afterName
        | some s =>
          let new := replaceAll s.name (replacementFor slots s) (s.value.length + 1) s.value
          name ++ '=' :: '"' :: (new ++ '"' :: rewriteFrom slots fuel s.rest)

/-- A source text with the placeholders inside its attribute values replaced. -/
def rewrite (slots : SlotMap) (source : String) : String :=
  String.ofList (rewriteFrom slots (source.length + 1) source.toList)

end AttributeSlots
end PageComposer
