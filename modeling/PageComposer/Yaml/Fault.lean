/-
# What is wrong with a YAML text

| fault | found in |
| --- | --- |
| `character` | the text: a character that may not stand in YAML |
| `token` | the text: characters that make no token |
| `grammar` | the order of tokens |
| `document` | an alias without an anchor, a repeated anchor, a second document |
| `content` | a node that makes no value of its kind |

The other faults are those of single scalars: a number, truth value, date or character code that is
none although its notation or its tag says so.  Besides, a node may stand in itself by an alias
(`endless`); then no value is made here.
-/

import PageComposer.Decimal.Numeral
import PageComposer.Value.Calendar

namespace PageComposer
namespace Yaml

/-- What is wrong with a YAML text. -/
inductive Fault where
  | character
  | token
  | grammar
  | document
  | content
  /-- A node in itself, which has no finite value. -/
  | endless
  /-- A character code beyond the last one. -/
  | codePoint (n : Nat)
  | numeral (fault : Decimal.NumeralFault)
  /-- A text that is no integer in a base other than ten. -/
  | digits (base : Nat) (text : String)
  /-- A text that is no decimal. -/
  | decimal (text : String)
  /-- A place of a decimal in base sixty beyond the largest number. -/
  | placeValue
  /-- A number without a character. -/
  | emptyNumber
  /-- A word that is no truth value. -/
  | truthValue (word : String)
  /-- A text that is no date. -/
  | timestamp
  /-- A mapping in the place of a date. -/
  | notText
  | calendar (fault : CalendarFault)
  deriving Repr, DecidableEq, Inhabited

/-- Whether a text with the fault is no YAML, or no YAML of the known kinds. The other faults are those
of scalars that look right, and of a node in itself. -/
def Fault.isSyntactic : Fault → Bool
  | .character | .token | .grammar | .document | .content => true
  | _ => false

/-- The words for a fault. -/
def Fault.message : Fault → String
  | .character => "a character that may not stand in YAML"
  | .token => "characters that make no token"
  | .grammar => "tokens in an order that is not allowed"
  | .document => "an unknown or repeated anchor, or a second document"
  | .content => "a node that makes no value of its kind"
  | .endless => "a node that stands in itself"
  | .codePoint n =>
    if n < 0x80000000 then "chr() arg not in range(0x110000)"
    else "Python int too large to convert to C int"
  | .numeral f => f.message
  | .digits base text =>
    s!"invalid literal for int() with base {base}: " ++
      String.ofList ((Text.quoted text).toList.take 200)
  | .decimal text => "could not convert string to float: " ++ Text.quoted text
  | .placeValue => "int too large to convert to float"
  | .emptyNumber => "string index out of range"
  | .truthValue word => Text.quoted word
  | .timestamp => "'NoneType' object has no attribute 'groupdict'"
  | .notText => "expected string or bytes-like object, got 'list'"
  | .calendar f => f.message

end Yaml
end PageComposer
