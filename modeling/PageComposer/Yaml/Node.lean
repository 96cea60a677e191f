/-
# The nodes of a YAML document

| node | begins with | ends with |
| --- | --- | --- |
| scalar | its token | itself |
| block collection | a start token | `blockEnd` |
| sequence without indentation | a dash where the value of a key may stand | anything but a dash |
| flow collection | an opening bracket | its closing bracket |
| pair | `key` in a flow sequence | the next comma or bracket |

A text holds one document or none. Anchors name nodes, and aliases stand for them; a node that holds
an alias of itself is cut off there. A plain scalar without a tag has the tag of its kind.

The readers take fuel. No call nests deeper than three for each token.
-/

import PageComposer.Yaml.Kind
import PageComposer.Yaml.Token

namespace PageComposer
namespace Yaml

/-- A node with its tag. -/
inductive Node where
  | scalar (tag text : String)
  | sequence (tag : String) (items : List Node)
  | mapping (tag : String) (entries : List (Node × Node))
  /-- An alias of a node inside that node. -/
  | cycle
  deriving Repr, Inhabited

/-- Nothing, where a node may be left out. -/
def Node.empty : Node := .scalar (tagStart ++ "null") ""

/-- What is left of a text, and what names mean in it. -/
structure Reader where
  tokens : List Token
  /-- What happens when there is no token left. -/
  fault : Fault
  /-- The handles of tags with what they stand for. -/
  handles : List (String × String) := []
  /-- The nodes of anchors; none for a node that is still open. -/
  anchors : List (String × Option Node) := []
  deriving Repr, Inhabited

/-- A step in reading nodes. -/
abbrev Read := StateT Reader (Except Fault)

namespace Read

/-- The next token. -/
def peek : Read Token := do
  let r ← get
  match r.tokens with
  | t :: _ => pure t
  | [] => throw r.fault

/-- Takes the next token. -/
def take : Read Unit := modify fun r => { r with tokens := r.tokens.tail }

/-- Whether the next token is one of some; it stays. -/
def isNext (ts : List Token) : Read Bool := do return ts.contains (← peek)

/-- Takes the next token if it is `t`. -/
def takeIf (t : Token) : Read Bool := do
  if (← peek) == t then
    take
    return true
  else return false

/-- The anchor here, if any. -/
def anchor? : Read (Option String) := do
  match ← peek with
  | .anchor name =>
    take
    return some name
  | _ => return none

/-- The tag here, if any. -/
def tag? : Read (Option TagText) := do
  match ← peek with
  | .tag t =>
    take
    return some t
  | _ => return none

/-- A tag in full. -/
def fullTag (t : TagText) : Read String := do
  match t.handle with
  | none => return t.suffix
  | some handle =>
    match (← get).handles.lookup handle with
    | some start => return start ++ t.suffix
    | none => throw .grammar

/-- What may stand before a node: its anchor and its tag, in any order. -/
def properties : Read (Option String × Option String) := do
  let first ← anchor?
  let tag ← tag?
  let anchor ← if first.isSome || tag.isNone then pure first else anchor?
  match tag with
  | none => return (anchor, none)
  | some t => return (anchor, some (← fullTag t))

/-- Notes an anchor, of which there may be only one of a name. -/
def declare (anchor : Option String) : Read Unit := do
  match anchor with
  | none => pure ()
  | some name =>
    let r ← get
    if (r.anchors.lookup name).isSome then throw .document
    else set { r with anchors := (name, none) :: r.anchors }

/-- A node, which its anchor now means. -/
def name (anchor : Option String) (n : Node) : Read Node := do
  match anchor with
  | none => pure ()
  | some a => modify fun r => { r with anchors := (a, some n) :: r.anchors }
  return n

/-- The node that an alias stands for. -/
def aliased (name : String) : Read Node := do
  match (← get).anchors.lookup name with
  | none => throw .document
  | some none => return .cycle
  | some (some n) => return n

end Read

open Read

/-- The tag of a collection, where none is given that tells it. -/
def collectionTag (kind : String) : Option String → String
  | some t => if t == "!" then tagStart ++ kind else t
  | none => tagStart ++ kind

/-- The tag of a scalar. -/
def scalarTag (text : String) (plain : Bool) : Option String → String
  | some t => if t == "!" then tagStart ++ kindOf text else t
  | none => tagStart ++ (if plain then kindOf text else "str")

mutual

/-- The node here; `block` tells whether block collections may stand here, and `dashes` whether a
sequence without indentation may. -/
def readNode (block dashes : Bool) : Nat → Read Node
  | 0 => throw .grammar
  | fuel + 1 => do
    match ← peek with
    | .alias n =>
      take
      aliased n
    | _ =>
      let (anchor, tag) ← properties
      let t ← peek
      if dashes && t == .blockEntry then
        declare anchor
        name anchor (.sequence (collectionTag "seq" tag) (← readDashes fuel))
      else
        match t with
        | .scalar text plain =>
          take
          declare anchor
          name anchor (.scalar (scalarTag text plain tag) text)
        | .flowSequenceStart =>
          declare anchor
          take
          name anchor (.sequence (collectionTag "seq" tag) (← readFlowItems true fuel))
        | .flowMappingStart =>
          declare anchor
          take
          name anchor (.mapping (collectionTag "map" tag) (← readFlowEntries true fuel))
        | .blockSequenceStart =>
          if !block then readEmpty anchor tag
          else
            declare anchor
            take
            name anchor (.sequence (collectionTag "seq" tag) (← readItems fuel))
        | .blockMappingStart =>
          if !block then readEmpty anchor tag
          else
            declare anchor
            take
            name anchor (.mapping (collectionTag "map" tag) (← readEntries fuel))
        | _ => readEmpty anchor tag

/-- A node of which only the anchor or the tag is there. -/
def readEmpty (anchor tag : Option String) : Read Node := do
  if anchor.isNone && tag.isNone then throw .grammar
  declare anchor
  name anchor (.scalar (scalarTag "" true tag) "")

/-- The node here, or nothing before one of `stops`. -/
def readUnless (stops : List Token) (block dashes : Bool) : Nat → Read Node
  | 0 => throw .grammar
  | fuel + 1 => do
    if ← isNext stops then pure Node.empty else readNode block dashes fuel

/-- What stands behind `value`, or nothing without one. -/
def readValue (stops : List Token) (block dashes : Bool) : Nat → Read Node
  | 0 => throw .grammar
  | fuel + 1 => do
    if ← takeIf .value then readUnless stops block dashes fuel else pure Node.empty

/-- The items of a block sequence. -/
def readItems : Nat → Read (List Node)
  | 0 => throw .grammar
  | fuel + 1 => do
    if ← takeIf .blockEntry then
      let item ← readUnless [.blockEntry, .blockEnd] true false fuel
      return item :: (← readItems fuel)
    else if ← takeIf .blockEnd then return []
    else throw .grammar

/-- The items of a sequence without indentation. -/
def readDashes : Nat → Read (List Node)
  | 0 => throw .grammar
  | fuel + 1 => do
    if ← takeIf .blockEntry then
      let item ← readUnless [.blockEntry, .key, .value, .blockEnd] true false fuel
      return item :: (← readDashes fuel)
    else return []

/-- The entries of a block mapping. -/
def readEntries : Nat → Read (List (Node × Node))
  | 0 => throw .grammar
  | fuel + 1 => do
    let stops := [Token.key, .value, .blockEnd]
    if ← takeIf .key then
      let k ← readUnless stops true true fuel
      let v ← readValue stops true true fuel
      return (k, v) :: (← readEntries fuel)
    else if ← takeIf .blockEnd then return []
    else throw .grammar

/-- The items of a flow sequence; `first` tells whether none came before. -/
def readFlowItems (first : Bool) : Nat → Read (List Node)
  | 0 => throw .grammar
  | fuel + 1 => do
    if ← takeIf .flowSequenceEnd then return []
    if !first then
      if !(← takeIf .flowEntry) then throw .grammar
    if ← takeIf .key then
      let k ← readUnless [.value, .flowEntry, .flowSequenceEnd] false false fuel
      let v ← readValue [.flowEntry, .flowSequenceEnd] false false fuel
      return .mapping (tagStart ++ "map") [(k, v)] :: (← readFlowItems false fuel)
    if ← takeIf .flowSequenceEnd then return []
    let item ← readNode false false fuel
    return item :: (← readFlowItems false fuel)

/-- The entries of a flow mapping; `first` tells whether none came before. -/
def readFlowEntries (first : Bool) : Nat → Read (List (Node × Node))
  | 0 => throw .grammar
  | fuel + 1 => do
    if ← takeIf .flowMappingEnd then return []
    if !first then
      if !(← takeIf .flowEntry) then throw .grammar
    if ← takeIf .key then
      let k ← readUnless [.value, .flowEntry, .flowMappingEnd] false false fuel
      let v ← readValue [.flowEntry, .flowMappingEnd] false false fuel
      return (k, v) :: (← readFlowEntries false fuel)
    if ← takeIf .flowMappingEnd then return []
    let k ← readNode false false fuel
    return (k, Node.empty) :: (← readFlowEntries false fuel)

end

/-- The handles that need not be declared. -/
def defaultHandles : List (String × String) := [("!", "!"), ("!!", tagStart)]

/-- Whether the directives before a document have a version, and the handles that they declare. -/
def readDirectives (version : Bool) (handles : List (String × String)) :
    Nat → Read (List (String × String))
  | 0 => throw .grammar
  | fuel + 1 => do
    match ← peek with
    | .directive d =>
      take
      match d with
      | .version major _ =>
        if version || major != 1 then throw .grammar
        readDirectives true handles fuel
      | .tag handle uri =>
        if (handles.lookup handle).isSome then throw .grammar
        readDirectives version ((handle, uri) :: handles) fuel
      | .unknown => readDirectives version handles fuel
    | _ => return handles ++ defaultHandles

/-- Takes all marks of document ends. -/
def skipEnds : Nat → Read Unit
  | 0 => pure ()
  | fuel + 1 => do
    if ← takeIf .documentEnd then skipEnds fuel

/-- Takes the directives and the start of a document. -/
def readStart (fuel : Nat) : Read Unit := do
  let handles ← readDirectives false [] fuel
  modify fun r => { r with handles := handles }
  if !(← takeIf .documentStart) then throw .grammar

/-- The one document of a text, none if there is none. -/
def readDocument (fuel : Nat) : Read (Option Node) := do
  let t ← peek
  if t == .streamEnd then return none
  let isExplicit := match t with
    | .directive _ | .documentStart => true
    | _ => false
  let root ←
    if isExplicit then do
      readStart fuel
      match ← peek with
      | .directive _ | .documentStart | .documentEnd | .streamEnd => pure Node.empty
      | _ => readNode true false fuel
    else do
      modify fun r => { r with handles := defaultHandles }
      readNode true false fuel
  skipEnds fuel
  if (← peek) == .streamEnd then return some root
  readStart fuel
  throw .document

/-- A character that may not stand in YAML. -/
def isForbidden (c : Char) : Bool :=
  let n := c.toNat
  !(n == 0x9 || n == 0xa || n == 0xd || 0x20 ≤ n && n ≤ 0x7e || n == 0x85 ||
    0xa0 ≤ n && n ≤ 0xd7ff || 0xe000 ≤ n && n ≤ 0xfffd || 0x10000 ≤ n)

/-- The one document of a text. -/
def document? (cs : List Char) : Except Fault (Option Node) :=
  if cs.any isForbidden then .error .character
  else
    let (ts, fault) := tokens cs
    let fuel := 3 * ts.length + 3
    match (readDocument fuel).run { tokens := ts, fault := fault.getD .token } with
    | .ok (root, _) => .ok root
    | .error f => .error f

end Yaml
end PageComposer
