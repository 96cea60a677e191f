/-
# Layers of settings

| operation | at a key |
| --- | --- |
| `merge` | two maps are merged in turn; else the upper value counts |
| `setPath` | maps are made where there are none on the way |

A key keeps its place; a new one comes last.
-/

import PageComposer.Value.Basic

namespace PageComposer
namespace Entries

mutual

/-- The value where `new` lies over what is there. -/
def mergeOver (old : Option Value) : Value → Value
  | .map new =>
    match old with
    | some (.map base) => .map (merge base new)
    | _ => .map new
  | v => v

/-- `over` laid over `base`. -/
def merge (base : Entries) : List (Value × Value) → Entries
  | [] => base
  | (k, v) :: rest => merge (put base k (mergeOver (get? base k) v)) rest

end

/-- The entries of a value that is to hold more: its own if it is a map, else none. -/
def within : Option Value → Entries
  | some (.map es) => es
  | _ => []

/-- `es` with `value` at the end of a path of keys. -/
def setPath (es : Entries) (value : Value) : List String → Entries
  | [] => es
  | [key] => put es (.text key) value
  | key :: rest => put es (.text key) (.map (setPath (within (at? es key)) value rest))

/-- The value at the end of a path of keys. -/
def getPath? (es : Entries) : List String → Option Value
  | [] => some (.map es)
  | [key] => at? es key
  | key :: rest =>
    match at? es key with
    | some (.map inner) => getPath? inner rest
    | _ => none

end Entries
end PageComposer
