/-
# Loaded settings, kept

Settings that were loaded are kept under a key that holds all that they depend on, so that what is
found under a key is what loading would give again.

| part of the key | changes with |
| --- | --- |
| directory of the project, without detours | the project asked for |
| whether they were checked | the question |
| variables that hold settings | the environment |
| size and time of change of the project files | the files |

What could not be loaded is not kept.
-/

import PageComposer.Config.Project

namespace PageComposer
namespace Config

/-- What a process finds around itself besides files. -/
structure Surroundings where
  «variables» : Variables := []
  /-- The home of the user where no variable names it. -/
  home : String := "/"
  /-- The homes of accounts by their names. -/
  accounts : List (String × String) := []
  deriving Repr, DecidableEq, Inhabited

/-- The home directories. -/
def Surroundings.homes (s : Surroundings) : Homes where
  own := (s.variables.lookup "HOME").getD s.home
  accounts := s.accounts

/-- The directory that a text names; an empty one names none. -/
def directory? (s : String) : Option Path := if s == "" then none else some (Path.ofString s)

/-- What settings depend on. -/
structure Key where
  root : Path
  validate : Bool
  «variables» : Variables
  /-- The project files that exist: name, time of change and size. -/
  files : List (String × Nat × Nat)
  deriving Repr, DecidableEq, Inhabited

/-- The directory of a project without detours; the current directory if none is given. -/
def fullRoot (w : FileTree) (homes : Homes) : Option Path → Except Fault Path
  | none => .ok (Path.ofLocation w.here)
  | some p =>
    match homes.expand? p with
    | none => .error .unknownHome
    | some p =>
      if Text.holds p.text '\x00' then .error (.access .nullCharacter) else .ok (p.resolve w.here)

/-- The time of change and size of what is at a path, if anything is. -/
def stamp? (w : FileTree) (p : Path) : Except FileFault (Option (Nat × Nat)) :=
  (w.status? p).map fun e => e.map fun e =>
    match e with
    | .file f => (f.modified, f.data.length)
    | .directory => (0, 0)

/-- The stamps of the files that exist. -/
def stamps (w : FileTree) : List Path → Except FileFault (List (String × Nat × Nat))
  | [] => .ok []
  | p :: rest => do
    let s ← stamp? w p
    let more ← stamps w rest
    return (s.toList.map fun t => (p.name, t)) ++ more

/-- The key of the settings of a project. -/
def Key.of (w : FileTree) (s : Surroundings) (root : Option Path) (validate : Bool) :
    Except Fault Key := do
  let root ← fullRoot w s.homes root
  match stamps w (projectFilePlaces root) with
  | .error f => throw (.access f)
  | .ok files => return ⟨root, validate, settingVariables s.variables, files⟩

/-- Settings by their keys. -/
abbrev Cache := List (Key × Entries)

namespace Cache

/-- Whether the settings of a project are kept. -/
def holds (c : Cache) (w : FileTree) (s : Surroundings) (root : Option Path) (validate : Bool) :
    Except Fault Bool :=
  (Key.of w s root validate).map fun k => (c.lookup k).isSome

/-- The settings of a project, loaded if they are not kept, and what is kept then. -/
def get (c : Cache) (w : FileTree) (s : Surroundings) (root : Option Path) (validate : Bool) :
    Loaded × Cache :=
  match Key.of w s root validate with
  | .error f => ({ settings := .error f }, c)
  | .ok k =>
    match c.lookup k with
    | some es => ({ settings := .ok es }, c)
    | none =>
      let l := loadSettings w s.variables k.root validate
      match l.settings with
      | .ok es => (l, (k, es) :: c)
      | .error _ => (l, c)

end Cache
end Config
end PageComposer
