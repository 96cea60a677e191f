/-
# Sessions

A session holds named documents, reports and slots over many steps. Slots that are taken from an
include are shared with the document: they show what later steps do to the nodes in them.

| step | changes |
| --- | --- |
| `setTree` | a document as a whole |
| `expandIn`, `collectIn`, `substituteIn` | a document below a place |
| `resolveAt`, `settleAt` | one node |
| `bindSlots` | slots of their own |
| `extractAt` | slots shared with a document |

Shared nodes carry a mark. After each step the slots take over every marked node as the step leaves
it, in the document or in content that was released from it.
-/

import PageComposer.Expansion.Expand

namespace PageComposer

/-- Where a node is: its index in the document, then the index below each node on the way. -/
abbrev Place := List Nat

namespace Content

/-- The node or text at a place. -/
def at? (items : List Content) : Place → Option Content
  | [] => none
  | [i] => items[i]?
  | i :: rest => items[i]?.bind fun item => at? item.children rest

/-- The content list with `new` at a place; a list of all items where the place is that of the whole
document. -/
def putAt (items : List Content) (new : List Content) : Place → List Content
  | [] => new
  | [i] => items.take i ++ new ++ items.drop (i + 1)
  | i :: rest => items.modify i fun item =>
    match item with
    | .text s => .text s
    | .node h cs => .node h (putAt cs new rest)

/-- What a place stands for: the whole document, or the item there alone. -/
def focus (items : List Content) : Place → List Content
  | [] => items
  | p => (at? items p).toList

mutual

/-- An item in which every node without a mark gets the next one. -/
def markItem (next : Nat) : Content → Content × Nat
  | .text s => (.text s, next)
  | .node h cs =>
    match h.mark with
    | some _ =>
      let r := markAll next cs
      (.node h r.1, r.2)
    | none =>
      let r := markAll (next + 1) cs
      (.node { h with mark := some next } r.1, r.2)

/-- A content list in which every node without a mark gets the next one. -/
def markAll (next : Nat) : List Content → List Content × Nat
  | [] => ([], next)
  | item :: rest =>
    let first := markItem next item
    let r := markAll first.2 rest
    (first.1 :: r.1, r.2)

end

/-- The mark of a node. -/
def mark? (item : Content) : Option Nat := item.head?.bind (·.mark)

/-- The marked nodes of a content list. -/
def marked (items : List Content) : List (Nat × Content) :=
  (nodesAll items).filterMap fun item => item.mark?.map (·, item)

end Content

namespace SlotMap

/-- Whether any content is shared. -/
def isShared (slots : SlotMap) : Bool := slots.any fun s => s.2.any fun item => item.mark?.isSome

/-- Slots with the nodes of `marked` in the place of those with the same marks. -/
def refresh (marked : List (Nat × Content)) (slots : SlotMap) : SlotMap :=
  slots.map fun s => (s.1, s.2.map fun item => (item.mark?.bind fun m => marked.lookup m).getD item)

mutual

/-- Substitution in an item of a document that the slots share nodes with, and the slots as it leaves
them: the item, how many placeholders it met, the slots. -/
def fillSharedItem (slots : SlotMap) (binding : Bool) : Content → Content × Nat × SlotMap
  | .text s => (.text s, 0, slots)
  | .node h cs =>
    let r : Content × Nat × SlotMap :=
      match if binding then none else h.placeholder? with
      | none =>
        let f := fillShared slots h.isInclude cs
        (.node h f.1, f.2)
      | some p =>
        match p.name.bind fun name => (slots.get? name).map fun content => (name, content) with
        | some (name, content) =>
          let f := fill (slots.erase name) (Content.copyAll content)
          (.node h.resolved f.content, f.resolved.length + 1, slots)
        | none =>
          if p.isOptional then (.node h.resolved [], 1, slots)
          else
            let f := fillShared slots false cs
            (.node h.resolved f.1, f.2.1 + 1, f.2.2)
    match h.mark with
    | none => r
    | some mark => (r.1, r.2.1, r.2.2.refresh [(mark, r.1)])

/-- Substitution in content of a document that the slots share nodes with, and the slots as it leaves
them. -/
def fillShared (slots : SlotMap) (binding : Bool) : List Content → List Content × Nat × SlotMap
  | [] => ([], 0, slots)
  | item :: rest =>
    let first := fillSharedItem slots binding item
    let r := fillShared first.2.2 binding rest
    (first.1 :: r.1, first.2.1 + r.2.1, r.2.2)

end

end SlotMap

/-- `pairs` with `value` under `name`. -/
def putNamed {α : Type} (name : String) (value : α) : List (String × α) → List (String × α)
  | [] => [(name, value)]
  | p :: rest => if p.1 == name then (name, value) :: rest else p :: putNamed name value rest

/-- What a session holds. -/
structure Session where
  trees : List (String × List Content) := []
  reports : List (String × Report) := []
  slots : List (String × SlotMap) := []
  /-- A mark that no node has. -/
  next : Nat := 0
  deriving Repr, Inhabited

namespace Session

/-- The document of a name. -/
def tree (s : Session) (name : String) : List Content := (s.trees.lookup name).getD []

/-- The slots of a name. -/
def slotMap (s : Session) (name : String) : SlotMap := (s.slots.lookup name).getD []

/-- The report of a name, a new one on that document if there is none. -/
def report (s : Session) (name : String) : Report :=
  (s.reports.lookup name).getD { document := name }

/-- The session with a document. -/
def setTree (s : Session) (name : String) (items : List Content) : Session :=
  { s with trees := putNamed name items s.trees }

/-- The session with a report. -/
def setReport (s : Session) (name : Option String) (report : Report) : Session :=
  match name with
  | none => s
  | some name => { s with reports := putNamed name report s.reports }

/-- The session with slots of their own. -/
def bindSlots (s : Session) (name : String) (slots : SlotMap) : Session :=
  { s with slots := putNamed name slots s.slots }

/-- The session with a document as a step leaves it, and what was released from it. -/
def update (s : Session) (name : String) (items released : List Content) : Session :=
  let s := s.setTree name items
  if s.slots.any (·.2.isShared) then
    let marked := Content.marked (items ++ released)
    { s with slots := s.slots.map fun e => (e.1, e.2.refresh marked) }
  else s

/-- The session with what a run leaves below a place of a document. -/
def finish (s : Session) (name : String) (place : Place) (report : Option String)
    (r : List Content × Run) : Session :=
  (s.update name (Content.putAt (s.tree name) r.1 place) r.2.released).setReport report r.2.report

/-- A run that goes on with the report of a name. -/
def start (s : Session) (report : Option String) : Run :=
  { report := match report with
    | some name => s.report name
    | none => {} }

/-- The session after an expansion below a place of a document, and what ended that. -/
def expandIn (s : Session) (x : Expander) (w : FileTree) (name : String) (place : Place)
    (report : Option String) (stack : List Path) : Session × Option FragmentFault :=
  let r := x.expand w stack (s.start report) (Content.focus (s.tree name) place)
  (s.finish name place report r, r.2.fault?)

/-- The session after the directives below a place were announced, and their references. -/
def collectIn (s : Session) (name : String) (place : Place) (report : Option String) :
    Session × List String :=
  let r := (s.start report).announce (Content.focus (s.tree name) place)
  (s.finish name place report r, Content.directives r.1)

/-- The session after substitution below a place of a document, and how many placeholders that
met. -/
def substituteIn (s : Session) (name : String) (place : Place) (slots : String) : Session × Nat :=
  let items := Content.focus (s.tree name) place
  let r := SlotMap.fillShared (s.slotMap slots) false items
  (s.update name (Content.putAt (s.tree name) r.1 place) [], r.2.1)

/-- The session with the slots that the node at a place binds, shared with the document. -/
def extractAt (s : Session) (name : String) (place : Place) (slots : String) : Session :=
  let m := Content.markAll s.next (s.tree name)
  let s := { s with trees := putNamed name m.1 s.trees, next := m.2 }
  let children := ((Content.at? m.1 place).map Content.children).getD []
  { s with slots := putNamed slots (SlotMap.ofChildren children) s.slots }

/-- The session with the node at a place changed. -/
def changeAt (s : Session) (name : String) (place : Place)
    (change : Head → List Content → Content) : Session :=
  match Content.at? (s.tree name) place with
  | some (.node h cs) => s.update name (Content.putAt (s.tree name) [change h cs] place) []
  | _ => s

/-- The session with the node at a place resolved to content. -/
def resolveAt (s : Session) (name : String) (place : Place) (content : List Content) : Session :=
  s.changeAt name place fun h _ => .node h.resolved content

/-- The session with the node at a place settled or made pending. -/
def settleAt (s : Session) (name : String) (place : Place) (settled : Bool) : Session :=
  s.changeAt name place fun h cs => .node { h with settled := settled } cs

end Session
end PageComposer
