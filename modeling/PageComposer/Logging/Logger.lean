/-
# Where log records go

A handler writes to the console or to a file, and passes the records at or above its level. The program installs
one handler at a time and remembers which one, and on what target.

| call of `configure` | the handlers |
| --- | --- |
| path that holds a null character | stay as they are |
| target of the last call that came to its end, its handler installed | the handler gets the new level |
| other target | the handler that was installed is removed, then a new one is installed |
| target that cannot be opened | the handler that was installed is removed |

The logger itself has a level too; without one (0) it takes that of warnings. A file handler holds the
file that it opened: records go on into it when it is overwritten, and get lost when it is removed.
-/

import PageComposer.Files.Tree
import PageComposer.Logging.Record
import PageComposer.Text.Case

namespace PageComposer
namespace Logging

/-- What a handler writes to. -/
inductive Target where
  | console
  | file (path : Path)
  deriving Repr, DecidableEq, Inhabited

/-- What a path stands for, seen from a directory; without one it is the console. -/
def Target.ofPath (here : Location) : Option Path → Except FileFault Target
  | none => .ok .console
  | some p => if Text.holds p.text '\x00' then .error .nullCharacter else .ok (.file (p.resolve here))

/-- A handler of the logger. -/
structure Handler where
  /-- What tells the handler from every other. -/
  serial : Nat
  target : Target
  level : Int
  /-- The identity of the open file. -/
  file : Option Nat
  deriving Repr, DecidableEq, Inhabited

/-- The logger of the program, and what the program remembers of it. -/
structure Logger where
  /-- The level, 0 for none. -/
  level : Int := 0
  handlers : List Handler := []
  /-- The handler that is installed, by its serial. -/
  installed : Option Nat := none
  /-- The target of the last call that came to its end. -/
  configured : Option Target := none
  /-- A serial that no handler has. -/
  serials : Nat := 0
  /-- What every line begins with: the time, if it is to be told. -/
  stamp : String := ""
  deriving Repr, DecidableEq, Inhabited

/-- The name above all sources of the program. -/
def rootSource : String := "htmlcompose"

/-- Whether a source belongs to the program. -/
def isOwnSource (source : String) : Bool :=
  source == rootSource || source.startsWith (rootSource ++ ".")

/-- The level of a name in any case; that of `INFO` for a name that is none. -/
def levelOf (name : String) : Int := (level? (Text.upperAscii name)).getD 20

/-- What came of a record or a call. -/
structure Effect where
  tree : FileTree
  /-- The text on the console. -/
  console : String := ""
  deriving Inhabited

/-- What a handler does with a line. -/
def Handler.tell (h : Handler) (line : String) (e : Effect) : Effect :=
  match h.file with
  | some identity => { e with tree := e.tree.append identity line.toUTF8.toList }
  | none => { e with console := e.console ++ line }

namespace Logger

/-- The level that records have to reach. -/
def threshold (l : Logger) : Int := if l.level == 0 then 30 else l.level

/-- The handler that is installed. -/
def handler (l : Logger) : Option Handler :=
  l.installed.bind fun n => l.handlers.find? fun h => h.serial == n

/-- The logger with another level for the handler that is installed. -/
def relevel (l : Logger) (n : Int) : Logger :=
  { l with handlers := l.handlers.map fun h => if l.installed == some h.serial then { h with level := n } else h }

/-- The logger without the handler that is installed. -/
def remove (l : Logger) : Logger :=
  match l.installed with
  | some n => { l with handlers := l.handlers.filter fun h => h.serial != n, installed := none }
  | none => l

/-- The logger with one more handler, which is the one that is installed. -/
def add (l : Logger) (target : Target) (n : Int) (file : Option Nat) : Logger :=
  { l with
    handlers := l.handlers ++ [⟨l.serials, target, n, file⟩]
    installed := some l.serials
    configured := some target
    serials := l.serials + 1 }

/-- The logger with a new handler, if the target can be opened. -/
def install (l : Logger) (n : Int) (target : Target) (w : FileTree) (time : Nat) :
    Logger × FileTree × Option FileFault :=
  match target with
  | .console => (l.add .console n none, w, none)
  | .file path =>
    match w.makeDirectories path.parent with
    | (w, some f) => (l, w, some f)
    | (w, none) =>
      match w.openToAppend path time with
      | .error f => (l, w, some f)
      | .ok (w, identity) => (l.add (.file path) n (some identity), w, none)

/-- The logger with records at or above a level going to a file, or to the console. -/
def configure (l : Logger) (w : FileTree) (level : String) (path : Option Path) (time : Nat) :
    Logger × FileTree × Option FileFault :=
  match Target.ofPath w.here path with
  | .error f => (l, w, some f)
  | .ok target =>
    let n := levelOf level
    let l := { l with level := n }
    if l.configured == some target && l.installed.isSome then (l.relevel n, w, none)
    else l.remove.install n target w time

/-- The logger as it is before the first call of `configure`. -/
def reset (l : Logger) : Logger := { l.remove with level := 0, configured := none }

/-- What a record does. -/
def emit (l : Logger) (w : FileTree) (r : Record) : Effect :=
  if isOwnSource r.source && l.threshold ≤ r.level then
    l.handlers.foldl (fun e h => if h.level ≤ r.level then h.tell (l.stamp ++ r.line ++ "\n") e else e) { tree := w }
  else { tree := w }

/-- What records do one after the other. -/
def emitAll (l : Logger) (w : FileTree) (rs : List Record) : Effect :=
  rs.foldl (fun e r =>
    let next := l.emit e.tree r
    ⟨next.tree, e.console ++ next.console⟩) { tree := w }

end Logger
end Logging
end PageComposer
