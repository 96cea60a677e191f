/-
# Slots

An include binds slots through its direct `yield` children; in the fragment it loads, every other
`yield` is a placeholder for one of them.

| placeholder | becomes a transparent node with |
| --- | --- |
| its name is bound | a copy of the bound content |
| unbound, optional | nothing |
| unbound | its own content |

The `yield` children of an include in the fragment are bindings of that include: they stay, and only
what is inside them is substituted, so that slots can be handed on.

Placeholders inside bound content are substituted as well, by the same slots without the one whose
content it is; so substitution ends for every slot map.
-/

import PageComposer.Document.Content

namespace PageComposer

/-- Content bound to names; a name keeps its first place and its last content. -/
abbrev SlotMap := List (String × List Content)

namespace SlotMap

/-- The content bound to a name. -/
def get? (slots : SlotMap) (name : String) : Option (List Content) :=
  (slots.find? fun s => s.1 == name).map (·.2)

/-- `slots` with `content` bound to `name`. -/
def bind : SlotMap → String → List Content → SlotMap
  | [], name, content => [(name, content)]
  | (n, c) :: rest, name, content =>
    if n == name then (n, content) :: rest else (n, c) :: bind rest name content

/-- `slots` with nothing bound to `name`. -/
def erase (slots : SlotMap) (name : String) : SlotMap :=
  slots.filter fun s => !(s.1 == name)

/-- The slots that bindings in order make. -/
def ofBindings (pairs : List (String × List Content)) : SlotMap :=
  pairs.foldl (fun slots p => slots.bind p.1 p.2) []

/-- The binding that a child of an include is. -/
def binding? : Content → Option (String × List Content)
  | .text _ => none
  | .node h cs => if h.isYield then (h.textAttr? "name").map (·, cs) else none

/-- The slots that the children of an include bind; other children are ignored. -/
def ofChildren (children : List Content) : SlotMap :=
  ofBindings (children.filterMap binding?)

theorem length_erase_lt {slots : SlotMap} {name : String} {content : List Content}
    (h : slots.get? name = some content) : (slots.erase name).length < slots.length := by
  obtain ⟨s, hs, _⟩ := Option.map_eq_some_iff.1 h
  have hmem := List.mem_of_find?_eq_some hs
  have hname := List.find?_some hs
  exact List.length_filter_lt_length_iff_exists.2 ⟨s, hmem, by simp [hname]⟩

end SlotMap

/-- Content after substitution, with the names of the placeholders it met, in order. -/
structure Filled where
  content : List Content
  resolved : List (Option String)
  deriving Repr, DecidableEq, Inhabited

namespace Content

mutual

/-- Substitution in one item; `binding` tells whether it is a direct child of an include, and
`bound` gives the content of a slot with its own placeholders substituted. -/
def fillItem (bound : String → Option Filled) (binding : Bool) :
    Content → Content × List (Option String)
  | .text s => (.text s, [])
  | .node h cs =>
    if h.isInclude then
      let f := fillAll bound true cs
      (.node h f.content, f.resolved)
    else
      match if binding then none else h.placeholder? with
      | none =>
        let f := fillAll bound false cs
        (.node h f.content, f.resolved)
      | some p =>
        match p.name.bind bound with
        | some f => (.node h.resolved f.content, p.name :: f.resolved)
        | none =>
          if p.isOptional then (.node h.resolved [], [p.name])
          else
            let f := fillAll bound false cs
            (.node h.resolved f.content, p.name :: f.resolved)

/-- Substitution in a content list. -/
def fillAll (bound : String → Option Filled) (binding : Bool) : List Content → Filled
  | [] => ⟨[], []⟩
  | item :: rest =>
    let (item, first) := fillItem bound binding item
    let f := fillAll bound binding rest
    ⟨item :: f.content, first ++ f.resolved⟩

end

end Content

/-- Substitution of slots in a content list. -/
def SlotMap.fill (slots : SlotMap) (items : List Content) : Filled :=
  Content.fillAll (fun name =>
    match h : slots.get? name with
    | none => none
    | some content =>
      have := SlotMap.length_erase_lt h
      some (fill (slots.erase name) (Content.copyAll content))) false items
termination_by slots.length

end PageComposer
