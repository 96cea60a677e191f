/-
# The values of YAML nodes

| tag | from | value |
| --- | --- | --- |
| `null`, `bool`, `int`, `float`, `str` | a scalar | its own kind |
| `timestamp`, `binary` | a scalar | a date, a moment, bytes |
| `seq` | a sequence | a list |
| `map` | a mapping | a map; of a repeated key the first place and the last value count |
| `set` | a mapping | the set of its keys |
| `omap`, `pairs` | a sequence of mappings with one entry each | a list of pairs |

The entries of a mapping under a `merge` key come before its own. A mapping with a `value` key may
stand for the scalar there. Any other tag is a fault.

Values are built level by level, each level from the first node to the last; of several faults the one
that is met first in this order counts.
-/

import PageComposer.Text.Case
import PageComposer.Value.Basic
import PageComposer.Yaml.Node

namespace PageComposer
namespace Yaml

/-! ## Scalars -/

/-- The sign before a number, and what follows it. -/
def signedText (s : String) : Except Fault (Bool × String) :=
  match s.toList with
  | [] => .error .emptyNumber
  | '-' :: rest => .ok (true, String.ofList rest)
  | '+' :: rest => .ok (false, String.ofList rest)
  | _ => .ok (false, s)

/-- A number without underscores. -/
def unspaced (s : String) : String := String.ofList (s.toList.filter (· != '_'))

/-- An integer in base ten. -/
def readPart (s : String) : Except Fault Int :=
  match Decimal.readInt s with
  | .ok n => .ok n
  | .error f => .error (.numeral f)

/-- An integer in another base. -/
def readBase (base : Nat) (s : String) : Except Fault Int :=
  match Decimal.readDigits? base s with
  | some n => .ok n
  | none => .error (.digits base s)

/-- A decimal. -/
def readDecimal (s : String) : Except Fault Decimal.Binary64 :=
  match Decimal.readDecimal? s with
  | some x => .ok x
  | none => .error (.decimal s)

/-- The integer that a text without a sign is. -/
def magnitude (cs : List Char) : Except Fault Int :=
  match cs with
  | [] => .error .emptyNumber
  | ['0'] => .ok 0
  | '0' :: 'b' :: rest => readBase 2 (String.ofList rest)
  | '0' :: 'x' :: rest => readBase 16 (String.ofList rest)
  | '0' :: _ => readBase 8 (String.ofList cs)
  | _ =>
    if cs.contains ':' then do
      let parts ← (Text.split ':' (String.ofList cs)).mapM readPart
      return parts.foldl (fun n p => 60 * n + p) 0
    else readPart (String.ofList cs)

/-- The integer that a scalar is. -/
def buildInt (s : String) : Except Fault Int := do
  let (negative, body) ← signedText (unspaced s)
  let n ← magnitude body.toList
  return if negative then -n else n

/-- The sum of the parts of a decimal in base sixty, the last part first; the value of each place has to be a
finite number. -/
def sumParts (parts : List Decimal.Binary64) (base : Nat) (sum : Decimal.Binary64) :
    Except Fault Decimal.Binary64 :=
  match parts with
  | [] => .ok sum
  | x :: rest =>
    match Decimal.Binary64.ofNat base with
    | .infinite _ => .error .placeValue
    | b => sumParts rest (base * 60) (sum.add (x.mul b))

/-- The decimal that a text without a sign is. -/
def decimalMagnitude (body : String) : Except Fault Decimal.Binary64 :=
  if body == ".inf" then .ok (.infinite false)
  else if body == ".nan" then .ok .nan
  else if body.toList.contains ':' then do
    let parts ← (Text.split ':' body).mapM readDecimal
    sumParts parts.reverse 1 .zero
  else readDecimal body

/-- The decimal that a scalar is. -/
def buildFloat (s : String) : Except Fault Decimal.Binary64 := do
  let (negative, body) ← signedText (Text.lower (unspaced s))
  let x ← decimalMagnitude body
  return if negative then x.neg else x

/-- The truth value that a scalar is. -/
def buildBool (s : String) : Except Fault Bool :=
  let word := Text.lower s
  if ["yes", "true", "on"].contains word then .ok true
  else if ["no", "false", "off"].contains word then .ok false
  else .error (.truthValue word)

/-- The number of some digits. -/
def number (cs : List Char) : Nat := Decimal.ofDigits 10 (cs.map fun c => c.toNat - 48)

/-- The digits at the beginning of a text, up to `most`, and what follows them. -/
def takeDigits (most : Nat) (cs : List Char) : Nat × List Char :=
  let ds := (cs.take most).takeWhile Text.isAsciiDigit
  (number ds, cs.drop ds.length)

/-- A fraction of a second in millionths. -/
def microseconds (ds : List Char) : Nat :=
  number ((ds ++ List.replicate 6 '0').take 6)

/-- The offset from universal time that a text ends with. -/
def buildZone (cs : List Char) : Except Fault (Option Int) :=
  match cs.dropWhile isGap with
  | 'Z' :: _ => .ok (some 0)
  | c :: rest =>
    if c == '+' || c == '-' then
      let (hours, rest) := takeDigits 2 rest
      let minutes := (takeDigits 2 (rest.drop 1)).1
      let seconds := 3600 * hours + 60 * minutes
      if seconds ≥ 86400 then .error (.calendar (.offset (c == '-') seconds))
      else .ok (some (if c == '-' then -(seconds : Int) else seconds))
    else .ok none
  | [] => .ok none

/-- A date from its numbers. -/
def buildDate (year month day : Nat) : Except Fault Date :=
  match Date.of year month day with
  | .ok d => .ok d
  | .error f => .error (.calendar f)

/-- The date or the moment that a scalar is. -/
def buildTimestamp (s : String) : Except Fault Value :=
  let cs := s.toList
  let (year, rest) := takeDigits 4 cs
  let (month, rest) := takeDigits 2 (rest.drop 1)
  let (day, rest) := takeDigits 2 (rest.drop 1)
  if (afterDate? 1 cs).any atEnd then (buildDate year month day).map .date
  else if isTimestamp cs then do
    let (hour, rest) := takeDigits 2 ((afterDateGap? rest).getD [])
    let (minute, rest) := takeDigits 2 (rest.drop 1)
    let (second, rest) := takeDigits 2 (rest.drop 1)
    let (fraction, rest) := match rest with
      | '.' :: rest =>
        let ds := rest.takeWhile Text.isAsciiDigit
        (microseconds ds, rest.drop ds.length)
      | rest => (0, rest)
    let offset ← buildZone rest
    let date ← buildDate year month day
    if hour > 23 then throw (.calendar .hour)
    if minute > 59 then throw (.calendar .minute)
    if second > 59 then throw (.calendar .second)
    return .moment ⟨date, hour, minute, second, fraction, offset⟩
  else .error .timestamp

/-- The value of a digit of base sixty-four. -/
def digit64? (c : Char) : Option Nat :=
  if 'A' ≤ c && c ≤ 'Z' then some (c.toNat - 65)
  else if 'a' ≤ c && c ≤ 'z' then some (c.toNat - 71)
  else if '0' ≤ c && c ≤ '9' then some (c.toNat + 4)
  else if c == '+' then some 62
  else if c == '/' then some 63
  else none

/-- The bytes of digits of base sixty-four; `place` counts the digits of the group so far, `held` the
bits of the last one that are left, `pads` the signs of its end. Other characters are ignored. -/
def bytes64 (place held pads : Nat) : List Char → Option (List UInt8)
  | [] => if place == 0 then some [] else none
  | c :: rest =>
    if c == '=' then
      let pads := if place ≥ 2 then pads + 1 else pads
      if place ≥ 2 && place + pads ≥ 4 then some [] else bytes64 place held pads rest
    else
      match digit64? c with
      | none => bytes64 place held pads rest
      | some d =>
        match place with
        | 0 => bytes64 1 d 0 rest
        | 1 => (bytes64 2 (d % 16) 0 rest).map (UInt8.ofNat (held * 4 + d / 16) :: ·)
        | 2 => (bytes64 3 (d % 4) 0 rest).map (UInt8.ofNat (held * 16 + d / 4) :: ·)
        | _ => (bytes64 0 0 0 rest).map (UInt8.ofNat (held * 64 + d) :: ·)

/-- The bytes that a scalar is. -/
def buildBytes (s : String) : Except Fault (List UInt8) :=
  if s.toList.any fun c => c.toNat ≥ 128 then .error .content
  else
    match bytes64 0 0 0 s.toList with
    | some bs => .ok bs
    | none => .error .content

/-- The value of a scalar of a kind; none for kinds that no scalar is. -/
def buildScalar? (kind text : String) : Option (Except Fault Value) :=
  match kind with
  | "null" => some (.ok .null)
  | "bool" => some ((buildBool text).map .bool)
  | "int" => some ((buildInt text).map .int)
  | "float" => some ((buildFloat text).map .float)
  | "str" => some (.ok (.text text))
  | "timestamp" => some (buildTimestamp text)
  | "binary" => some ((buildBytes text).map .bytes)
  | _ => none

/-! ## Nodes -/

namespace Node

mutual

/-- The number of nodes. -/
def size : Node → Nat
  | .scalar .. => 1
  | .sequence _ items => sizeAll items + 1
  | .mapping _ entries => sizeEntries entries + 1
  | .cycle => 1

/-- The number of nodes in a list. -/
def sizeAll : List Node → Nat
  | [] => 0
  | n :: rest => size n + sizeAll rest

/-- The number of nodes in entries. -/
def sizeEntries : List (Node × Node) → Nat
  | [] => 0
  | (k, v) :: rest => size k + size v + sizeEntries rest

end

/-- The tag of a node. -/
def tag : Node → String
  | .scalar t _ => t
  | .sequence t _ => t
  | .mapping t _ => t
  | .cycle => ""

/-- The kind that a tag of YAML itself names. -/
def kind? (n : Node) : Option String :=
  if tagStart.toList.isPrefixOf n.tag.toList then
    some (String.ofList (n.tag.toList.drop tagStart.length))
  else none

/-- The node with another tag. -/
def withTag (t : String) : Node → Node
  | .scalar _ text => .scalar t text
  | .sequence _ items => .sequence t items
  | .mapping _ entries => .mapping t entries
  | .cycle => .cycle

/-- The text that a node stands for where a scalar is wanted. -/
def scalarText : Nat → Node → Except Fault String
  | 0, _ => .error .content
  | fuel + 1, n =>
    match n with
    | .scalar _ text => .ok text
    | .mapping _ entries =>
      match entries.find? fun e => e.1.kind? == some "value" with
      | some (_, v) => scalarText fuel v
      | none => .error .content
    | .sequence .. => .error .content
    | .cycle => .error .endless

/-- The value of a kind from the text that a node stands for. A date is made of the text of the node itself. -/
def scalarOf (n : Node) (kind text : String) : Option (Except Fault Value) :=
  match n, kind with
  | .mapping .., "timestamp" => some (.error .notText)
  | _, _ => buildScalar? kind text

/-- The entries of a mapping as `flat` gives them. -/
def entriesOf (flat : List (Node × Node) → Except Fault (List (Node × Node))) :
    Node → Except Fault (List (Node × Node))
  | .mapping _ entries => flat entries
  | .cycle => .error .endless
  | _ => .error .content

/-- The entries that a node under a merge key brings: those of a mapping, or of the mappings in a sequence, the last
one first. -/
def merged (flat : List (Node × Node) → Except Fault (List (Node × Node))) :
    Node → Except Fault (List (Node × Node))
  | .sequence _ items => do return (← items.mapM (entriesOf flat)).reverse.flatten
  | n => entriesOf flat n

/-- Whether a node is a merge key. -/
def isMerge (k : Node) : Bool := k.kind? == some "merge"

/-- A key as it is built: one of the kind `value` is a text. -/
def asText (k : Node) : Node := if k.kind? == some "value" then k.withTag (tagStart ++ "str") else k

/-- The entries of a mapping with those that are merged into it before its own. -/
def flatEntries : Nat → List (Node × Node) → Except Fault (List (Node × Node))
  | 0, _ => .error .content
  | fuel + 1, entries => do
    let brought ← (entries.filter fun e => e.1.isMerge).mapM fun e => merged (flatEntries fuel) e.2
    return brought.flatten ++ (entries.filter fun e => !e.1.isMerge).map fun e => (e.1.asText, e.2)

end Node

/-- A value and the first fault met on the way to it, with its level. -/
structure Built where
  value : Value
  fault? : Option (Nat × Fault) := none
  deriving Repr, Inhabited

/-- The fault that is met first: that of the upper level, or else the former. -/
def firstFault (a b : Option (Nat × Fault)) : Option (Nat × Fault) :=
  match a, b with
  | none, b => b
  | a, none => a
  | some x, some y => if y.1 < x.1 then some y else some x

/-- A fault alone. -/
def failed (level : Nat) (f : Fault) : Built := ⟨.null, some (level, f)⟩

/-- The key of an entry as it is built, which has to be fit for a key. -/
def asKey (level : Nat) (b : Built) : Built :=
  match b.fault? with
  | some (l, _) =>
    if l ≤ level then b
    else if b.value.isKey then b else failed level .content
  | none => if b.value.isKey then b else failed level .content

mutual

/-- The value of a node that is met at a level. -/
def build (level : Nat) : Nat → Node → Built
  | 0, _ => failed level .content
  | fuel + 1, n =>
    match n.kind? with
    | none => failed level (if n matches .cycle then .endless else .content)
    | some kind =>
      match kind with
      | "seq" =>
        match n with
        | .sequence _ items =>
          let r := buildAll (level + 1) fuel items
          ⟨.list r.1, r.2⟩
        | _ => ⟨.list [], some (level + 1, .content)⟩
      | "map" =>
        let r := buildMapping (level + 1) fuel n
        ⟨.map r.1, r.2⟩
      | "set" =>
        let r := buildMapping (level + 1) fuel n
        ⟨.set (Entries.keys r.1), r.2⟩
      | "omap" | "pairs" =>
        match n with
        | .sequence _ items =>
          let r := buildPairs (level + 1) fuel items
          ⟨.list r.1, r.2⟩
        | _ => ⟨.list [], some (level + 1, .content)⟩
      | kind =>
        match buildScalar? kind "" with
        | none => failed level .content
        | some _ =>
          match n.scalarText n.size with
          | .error f => failed level f
          | .ok text =>
            match n.scalarOf kind text with
            | some (.ok v) => ⟨v, none⟩
            | some (.error f) => failed level f
            | none => failed level .content

/-- The values of nodes. -/
def buildAll (level : Nat) : Nat → List Node → List Value × Option (Nat × Fault)
  | 0, _ => ([], some (level, .content))
  | _ + 1, [] => ([], none)
  | fuel + 1, n :: rest =>
    let b := build level fuel n
    let r := buildAll level fuel rest
    (b.value :: r.1, firstFault b.fault? r.2)

/-- The entries of a mapping. -/
def buildMapping (level : Nat) : Nat → Node → Entries × Option (Nat × Fault)
  | 0, _ => ([], some (level, .content))
  | fuel + 1, n =>
    match n with
    | .mapping _ entries =>
      match Node.flatEntries n.size entries with
      | .ok es => buildEntries level fuel [] es
      | .error f => ([], some (level, f))
    | _ => ([], some (level, .content))

/-- Entries put one after the other into `acc`. -/
def buildEntries (level : Nat) :
    Nat → Entries → List (Node × Node) → Entries × Option (Nat × Fault)
  | 0, acc, _ => (acc, some (level, .content))
  | _ + 1, acc, [] => (acc, none)
  | fuel + 1, acc, (k, v) :: rest =>
    let key := asKey level (build level fuel k)
    let value := build level fuel v
    let r := buildEntries level fuel (Entries.put acc key.value value.value) rest
    (r.1, firstFault (firstFault key.fault? value.fault?) r.2)

/-- Pairs from mappings with one entry each. -/
def buildPairs (level : Nat) : Nat → List Node → List Value × Option (Nat × Fault)
  | 0, _ => ([], some (level, .content))
  | _ + 1, [] => ([], none)
  | fuel + 1, n :: rest =>
    match n with
    | .mapping _ [(k, v)] =>
      let key := build level fuel k
      let value := build level fuel v
      let r := buildPairs level fuel rest
      (.pair key.value value.value :: r.1,
        firstFault (firstFault key.fault? value.fault?) r.2)
    | .cycle => ([], some (level, .endless))
    | _ => ([], some (level, .content))

end

/-- The value of the one document of a text; null if there is none. -/
def read (cs : List Char) : Except Fault Value :=
  match document? cs with
  | .error f => .error f
  | .ok none => .ok .null
  | .ok (some n) =>
    let b := build 0 (4 * n.size + 4) n
    match b.fault? with
    | some (_, f) => .error f
    | none => .ok b.value

end Yaml
end PageComposer
