/-
# Settings by their meaning

| record | section |
| --- | --- |
| `Composition` | `composition`: where sources and results are, how they are encoded, how deep includes nest |
| `LogSettings` | `logging`: the least level that is logged, and the file to log to |

A setting that is missing has the value that the bundled settings give it. Paths are seen from the
directory of the project and may begin with a home directory.
-/

import PageComposer.Config.Project
import PageComposer.Pages.Build

namespace PageComposer
namespace Config

/-- The entries of a section of settings. -/
def sectionOf (es : Entries) (name : String) : Entries := Entries.within (Entries.at? es name)

/-- The settings of composition. -/
structure Composition where
  /-- The directory of the project. -/
  project : Path
  root : String := "src"
  pagesDir : String := "src/pages"
  outDir : String := "dist"
  emptyOutDir : Bool := true
  encoding : String := "utf-8"
  maxDepth : Int := 10
  deriving Repr, DecidableEq, Inhabited

/-- The text at a key. -/
def textAt (es : Entries) (key default : String) : String :=
  ((Entries.at? es key).map Value.plain).getD default

/-- The integer that a number is. -/
def integerOf? : Value → Option Int
  | .int n => some n
  | .float x => x.toInt?
  | _ => none

namespace Composition

/-- The settings of composition of a project. -/
def ofSettings (project : Path) (settings : Entries) : Composition :=
  let es := sectionOf settings "composition"
  let plain : Composition := { project := project }
  { plain with
    root := textAt es "root" plain.root
    pagesDir := textAt es "pages_dir" plain.pagesDir
    outDir := textAt es "out_dir" plain.outDir
    emptyOutDir := ((Entries.at? es "empty_out_dir").map Value.isTruthy).getD plain.emptyOutDir
    encoding := textAt es "encoding" plain.encoding
    maxDepth := ((Entries.at? es "max_depth").bind integerOf?).getD plain.maxDepth }

end Composition

/-- A path of the settings seen from a project. -/
def locate (homes : Homes) (project : Path) (value : String) : Except Fault Path :=
  match homes.expand? (Path.ofString value) with
  | some p => .ok (project.join p)
  | none => .error .unknownHome

namespace Composition

/-- What pages are built with under these settings. -/
def builder (c : Composition) (homes : Homes) : Except Fault PageBuilder := do
  let root ← locate homes c.project c.root
  let pagesDir ← locate homes c.project c.pagesDir
  let outDir ← locate homes c.project c.outDir
  return {
    expander := { fragments := { root := root, encoding := c.encoding }, maxDepth := c.maxDepth }
    pagesDir := pagesDir
    outDir := outDir
    emptyOutDir := c.emptyOutDir }

end Composition

/-- The settings of logging. -/
structure LogSettings where
  /-- The directory of the project. -/
  project : Path
  level : String := "WARNING"
  file : Option String := none
  deriving Repr, DecidableEq, Inhabited

namespace LogSettings

/-- The text of a value that counts as present. -/
def present? (v : Value) : Option String := if v.isTruthy then some v.plain else none

/-- The settings of logging of a project. -/
def ofSettings (project : Path) (settings : Entries) : LogSettings :=
  let es := sectionOf settings "logging"
  let plain : LogSettings := { project := project }
  { plain with
    level := Text.upperAscii (((Entries.at? es "level").bind present?).getD plain.level)
    file := (Entries.at? es "file").bind present? }

/-- The file to log to. -/
def path? (l : LogSettings) (homes : Homes) : Except Fault (Option Path) :=
  match l.file with
  | none => .ok none
  | some file => (locate homes l.project file).map some

end LogSettings
end Config
end PageComposer
