/-
# Documents

A document is a list of content items. An item is a text leaf, kept in its markup form, or a node
with a tag, attributes and a content list of its own.

| node | meaning |
| --- | --- |
| no tag | transparent: it stands for its content |
| `include` with a text `src` | a directive, pending until it is settled |
| `yield` | a placeholder in a fragment; a slot binding directly below an include |

A node may carry a mark, by which a session tells it from every other node. Parsed and copied
nodes have none.
-/

import PageComposer.Text.Case

namespace PageComposer

/-- The value of an attribute: a text, a bare presence (`flag true`) or a switched-off one. -/
inductive AttrValue where
  | text (s : String)
  | flag (on : Bool)
  | absent
  deriving Repr, DecidableEq, Inhabited

/-- Presence, an empty value and the word `true` in any case switch an attribute on. -/
def AttrValue.isOn : AttrValue → Bool
  | .flag on => on
  | .text s => s.isEmpty || Text.lower (Text.trim s) == "true"
  | .absent => false

/-- Attributes in order; the names are distinct. -/
abbrev Attrs := List (String × AttrValue)

/-- The value of an attribute that is present. -/
def Attrs.get? (attrs : Attrs) (name : String) : Option AttrValue :=
  (attrs.find? fun a => a.1 == name).map (·.2)

/-- What a node holds beside its content. -/
structure Head where
  /-- The element name, none for a transparent node. -/
  tag : Option String
  /-- The attributes. -/
  attrs : Attrs := []
  /-- Whether a directive has been dealt with. -/
  settled : Bool := false
  /-- The name of the node in a session. -/
  mark : Option Nat := none
  deriving Repr, DecidableEq, Inhabited

/-- A content item. -/
inductive Content where
  | text (s : String)
  | node (head : Head) (children : List Content)
  deriving Repr, Inhabited

namespace Content

mutual

/-- Whether two items are equal. -/
def decEq : (a b : Content) → Decidable (a = b)
  | .text s, .text t => if e : s = t then isTrue (congrArg _ e) else isFalse fun h => e (text.inj h)
  | .text _, .node _ _ | .node _ _, .text _ => isFalse nofun
  | .node h cs, .node g ds =>
    if e : h = g then
      match decEqAll cs ds with
      | isTrue es => isTrue (e ▸ es ▸ rfl)
      | isFalse ne => isFalse fun h => ne (node.inj h).2
    else isFalse fun h => e (node.inj h).1

/-- Whether two content lists are equal. -/
def decEqAll : (xs ys : List Content) → Decidable (xs = ys)
  | [], [] => isTrue rfl
  | [], _ :: _ | _ :: _, [] => isFalse nofun
  | x :: xs, y :: ys =>
    match decEq x y with
    | isTrue e =>
      match decEqAll xs ys with
      | isTrue es => isTrue (e ▸ es ▸ rfl)
      | isFalse ne => isFalse fun h => ne (List.cons.inj h).2
    | isFalse ne => isFalse fun h => ne (List.cons.inj h).1

end

instance : DecidableEq Content := decEq

end Content

/-- What a yield asks for. -/
structure Placeholder where
  /-- The name of the slot. -/
  name : Option String
  /-- Whether nothing stands for an unbound slot, rather than the content of the yield. -/
  isOptional : Bool
  deriving Repr, DecidableEq, Inhabited

namespace Head

/-- Whether the node stands for its content. -/
def isTransparent (h : Head) : Bool := h.tag.isNone

/-- Whether the node is tagged as an include, valid or not. -/
def isInclude (h : Head) : Bool := h.tag == some "include"

/-- Whether the node is tagged as a yield. -/
def isYield (h : Head) : Bool := h.tag == some "yield"

/-- An attribute that is a text and not empty. -/
def textAttr? (h : Head) (name : String) : Option String :=
  match h.attrs.get? name with
  | some (.text s) => if s.isEmpty then none else some s
  | _ => none

/-- The reference of an include, none if it has no valid one. -/
def source? (h : Head) : Option String :=
  if h.isInclude then h.textAttr? "src" else none

/-- The placeholder that a yield is. -/
def placeholder? (h : Head) : Option Placeholder :=
  if h.isYield then
    some ⟨h.textAttr? "name", (h.attrs.get? "optional").any AttrValue.isOn⟩
  else none

/-- Whether the node is an include that nothing has dealt with. -/
def isPending (h : Head) : Bool := h.isInclude && !h.settled

/-- The node as a settled transparent group. -/
def resolved (h : Head) : Head :=
  { tag := none, attrs := [], settled := true, mark := h.mark }

/-- The node, settled. -/
def settle (h : Head) : Head := { h with settled := true }

@[simp] theorem isPending_settle (h : Head) : h.settle.isPending = false := by
  simp [settle, isPending]

@[simp] theorem isInclude_resolved (h : Head) : h.resolved.isInclude = false := rfl

end Head

namespace Content

mutual

/-- The number of items in an item, itself included. -/
def size : Content → Nat
  | .text _ => 1
  | .node _ children => sizeAll children + 1

/-- The number of items in a content list and below it. -/
def sizeAll : List Content → Nat
  | [] => 0
  | item :: rest => size item + sizeAll rest

end

mutual

/-- The nodes of an item in document order. -/
def nodes : Content → List Content
  | .text _ => []
  | .node h children => .node h children :: nodesAll children

/-- The nodes of a content list in document order. -/
def nodesAll : List Content → List Content
  | [] => []
  | item :: rest => nodes item ++ nodesAll rest

end

mutual

/-- The item without marks, as a copy of its own. -/
def copy : Content → Content
  | .text s => .text s
  | .node h children => .node { h with mark := none } (copyAll children)

/-- The content list without marks. -/
def copyAll : List Content → List Content
  | [] => []
  | item :: rest => copy item :: copyAll rest

end

/-- The head of a node. -/
def head? : Content → Option Head
  | .text _ => none
  | .node h _ => some h

/-- The content of a node. -/
def children : Content → List Content
  | .text _ => []
  | .node _ children => children

/-- The heads of a content list in document order. -/
def headsAll (items : List Content) : List Head :=
  (nodesAll items).filterMap head?

theorem size_pos (item : Content) : 0 < size item := by
  cases item <;> simp [size]

theorem nodesAll_append (xs ys : List Content) :
    nodesAll (xs ++ ys) = nodesAll xs ++ nodesAll ys := by
  induction xs with
  | nil => rfl
  | cons x xs ih => simp [nodesAll, ih]

end Content

end PageComposer
