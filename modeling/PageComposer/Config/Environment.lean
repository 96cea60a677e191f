/-
# Settings from the environment

A variable `HTMLCOMPOSE_A__B` sets the key path `a`, `b`. Its text is read as the first of these that
it is.

| reading | text, blanks aside |
| --- | --- |
| truth value | `true` or `false` in any case |
| integer | sign and decimal digits of any script |
| decimal | sign and digits with a point |
| JSON | between braces or brackets, if it can be read |
| text | the rest |

Variables are applied in the order of their names.
-/

import PageComposer.Config.Merge
import PageComposer.Json.Reader
import PageComposer.Text.Case

namespace PageComposer
namespace Config

/-- What the names of the variables begin with. -/
def variableStart : String := "HTMLCOMPOSE_"

/-- The pieces of a text between pairs of underscores, which are found from the left without
overlap. -/
def splitPairs : List Char → List (List Char)
  | [] => [[]]
  | '_' :: '_' :: rest => [] :: splitPairs rest
  | c :: rest =>
    match splitPairs rest with
    | [] => [[c]]
    | piece :: more => (c :: piece) :: more

/-- The key path of a name, none if a piece of it is empty. -/
def keyPath? (name : String) : Option (List String) :=
  let pieces := splitPairs name.toList
  if pieces.any List.isEmpty then none
  else some (pieces.map fun p => String.ofList (Text.lowered p))

/-- Whether a text is enclosed by two characters. -/
def isEnclosed (opening closing : Char) (cs : List Char) : Bool :=
  cs.head? == some opening && cs.getLast? == some closing

/-- The truth value that a text is. -/
def readBool? (cs : List Char) : Option Bool :=
  let word := String.ofList (Text.lowered (Text.trimmed cs))
  if word == "true" then some true else if word == "false" then some false else none

/-- The value of a text from the environment. An integer is read with the blanks that integers may
have around them, which are fewer than those that are taken off elsewhere. -/
def readSetting (s : String) : Except Decimal.NumeralFault Value :=
  let cs := Text.trimmed s.toList
  match readBool? s.toList with
  | some b => .ok (.bool b)
  | none =>
    if Decimal.isIntegerNumeral cs then (Decimal.readInt s).map .int
    else
      match Decimal.readFraction? cs with
      | some x => .ok (.float x)
      | none =>
        let whole := String.ofList cs
        if isEnclosed '\x7b' '\x7d' cs || isEnclosed '[' ']' cs then
          .ok ((Json.read? whole).getD (.text whole))
        else .ok (.text whole)

/-- The variables of a process. -/
abbrev Variables := List (String × String)

/-- The variables that hold settings, by name, in the order in which they are applied. -/
def settingVariables (vars : Variables) : Variables :=
  (vars.filter fun v => v.1.startsWith variableStart).mergeSort fun a b => a.1 ≤ b.1

/-- What is wrong with a variable. -/
inductive VariableFault where
  | emptyPiece (name : String)
  | numeral (fault : Decimal.NumeralFault)
  deriving Repr, DecidableEq, Inhabited

/-- The words for a fault. -/
def VariableFault.message : VariableFault → String
  | .emptyPiece name => s!"Malformed {variableStart}* key: empty segment in '{name}'."
  | .numeral f => f.message

/-- Settings with those of variables laid over them. -/
structure Overlaid where
  settings : Entries
  /-- The key paths that were set. -/
  paths : List (List String) := []
  /-- What ended the laying over. -/
  fault? : Option VariableFault := none

/-- The settings with those of variables laid over them, up to the first that is at fault. -/
def applyVariables (es : Entries) : Variables → Overlaid
  | [] => { settings := es }
  | (name, text) :: rest =>
    let key := String.ofList (name.toList.drop variableStart.length)
    if key.isEmpty then applyVariables es rest
    else
      match keyPath? key with
      | none => { settings := es, fault? := some (.emptyPiece key) }
      | some path =>
        match readSetting text with
        | .error f => { settings := es, fault? := some (.numeral f) }
        | .ok value =>
          let r := applyVariables (Entries.setPath es value path) rest
          { r with paths := path :: r.paths }

end Config
end PageComposer
