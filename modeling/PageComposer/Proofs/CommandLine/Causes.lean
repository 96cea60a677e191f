/-
# What commands do not report

A command reports the faults that users can mend (`Command.reports`).  Any other fault that it ends with has one
of the following causes in what it is given (`Cause`).

| fault | cause |
| --- | --- |
| null character in a path | a path in the arguments or the settings, or the current directory, holds one |
| unknown home | a path in the settings begins with a home directory that is not known |
| settings | a scalar of the project file makes no value, or a variable is too long a numeral; for `config`, the project file cannot be read |
| encoding | there is none of the name, or the name holds a null character |
| expansion | a reference leads to a path with a null character, a character reference has too many digits |
| key | for `config`, JSON cannot write a key of the settings |

What a command is given is told by the actions that it begins with: its project (`Action.project`), the settings
that it finds, before and after the logger is set up (`Action.Finds`), and what it expands (`Action.Expands`).
-/

import PageComposer.Proofs.CommandLine.Quiet
import PageComposer.Proofs.CommandLine.StrictBuild
import PageComposer.Proofs.Config.Faults
import PageComposer.Proofs.Expansion.Faults
import PageComposer.Proofs.Json.Keys
import PageComposer.Proofs.Pages.Ends

namespace PageComposer
namespace CommandLine

/-- The faults that a command reports. -/
def Command.reports : Command → Fault → Bool
  | .build, f | .render, f => f.isReported
  | .config, f => f.isAboutSettings

namespace Action

/-! ### What a command is given -/

/-- A command before it asks for settings of its project: at its beginning, or with the logger set up. -/
inductive Stage (a : Arguments) (work : Work) (root : Path) : Work → Prop
  | first {w : Work} (found : Returns (project a) work root w) : Stage a work root w
  | second {w w' : Work} (found : Returns (project a) work root w)
      (logging : Returns (setUpLogging a root) w () w') : Stage a work root w'

/-- A command finds settings of its project. -/
def Finds (a : Arguments) (work : Work) (root : Path) (es : Entries) : Prop :=
  ∃ w w', Stage a work root w ∧ Returns (settings root) w es w'

/-- The paths in settings, as they are written. -/
def placesIn (root : Path) (es : Entries) : List String :=
  let c := Config.Composition.ofSettings root es
  [c.root, c.pagesDir, c.outDir] ++ (Config.LogSettings.ofSettings root es).file.toList

/-- The paths that a command is given: the current directory, those of its arguments and of the settings that it
finds. -/
inductive Named (a : Arguments) (work : Work) : Path → Prop
  | here : Named a work (Path.ofLocation work.tree.here)
  | flag {key s : String} (takes : key ∈ ["--project-root", "--root", "--output"])
      (given : a.text? key = some s) : Named a work (Path.ofString s)
  | document : Named a work (Path.ofString (a.values.headD ""))
  | setting {root : Path} {es : Entries} {s : String} {p : Path} (found : Finds a work root es)
      (place : s ∈ placesIn root es) (located : Config.locate work.around.homes root s = .ok p) :
      Named a work p

/-- The directory of the fragments that the command `render` expands. -/
def fragmentRoot (a : Arguments) (c : Config.Composition) : Action Path :=
  match given? a "--root" with
  | some r => resolve (Path.ofString r)
  | none => do settled (Config.locate (← get).around.homes c.project c.root)

/-- The expander of the command `render`. -/
def renderer (a : Arguments) : Action Expander := do
  let project ← project a
  setUpLogging a project
  let c ← composition project
  let root ← fragmentRoot a c
  return {
    fragments := { root := root, encoding := (given? a "--encoding").getD c.encoding }
    maxDepth := (a.number? "--max-depth").getD c.maxDepth }

/-- A command is to expand documents with `x`. -/
inductive Prepares (a : Arguments) (work : Work) : Command → Expander → Prop
  | build {b : PageBuilder} {start : Work} (built : Returns (builder a) work b start) :
      Prepares a work .build b.expander
  | render {x : Expander} {start : Work} (made : Returns (renderer a) work x start) :
      Prepares a work .render x

/-- A command expands a document with `x`, in the files of `w`. -/
inductive Expands (a : Arguments) (work : Work) :
    Command → Expander → FileTree → String → String → Prop
  | page {b : PageBuilder} {start : Work} {s : Build × (String × Path)} {cs : List Char}
      (built : Returns (builder a) work b start) (stage : s ∈ stagesOf b start a)
      (read : s.1.tree.readText s.2.2 b.expander.fragments.encoding = .ok cs) :
      Expands a work .build b.expander s.1.tree s.2.2.name (String.ofList cs)
  | document {x : Expander} {start : Work} {cs : List Char} (made : Returns (renderer a) work x start)
      (read : start.tree.readText (Path.ofString (a.values.headD "")) x.fragments.encoding = .ok cs) :
      Expands a work .render x start.tree (Path.ofString (a.values.headD "")).name (String.ofList cs)

/-! ### Causes -/

/-- What a fault that a command does not report is due to. -/
inductive Cause (c : Command) (a : Arguments) (work : Work) : Fault → Prop
  | null {p : Path} {f : Fault} (named : Named a work p) (null : p.HoldsNull)
      (about : f = .config (.access .nullCharacter) ∨ f = .build (.file .nullCharacter) ∨
        f = .build (.page (.file .nullCharacter))) : Cause c a work f
  | home {root : Path} {es : Entries} {s : String} (found : Finds a work root es)
      (place : s ∈ placesIn root es) (unknown : work.around.homes.expand? (Path.ofString s) = none) :
      Cause c a work (.config .unknownHome)
  | settings {root : Path} {w : Work} {f : Config.Fault} (stage : Stage a work root w)
      (cause : Config.LoadCause w.tree work.around.variables root f)
      (grave : c = .config ∨ (∃ g, f = .file (.content g)) ∨ ∃ g, f = .variable (.numeral g)) :
      Cause c a work (.config f)
  | encoding {x : Expander} {f : BuildFault} (prepared : Prepares a work c x)
      (unknown : Text.holds x.fragments.encoding '\x00' = true ∨
        Text.Encoding.ofName? x.fragments.encoding = none)
      (about : f = .page (.unknownEncoding x.fragments.encoding) ∨
        f = .fragment (.nullCharacter "embedded null character")) : Cause c a work (.build f)
  | expansion {x : Expander} {w : FileTree} {document markup : String} {f : FragmentFault}
      (expands : Expands a work c x w document markup)
      (caused : x.Caused w (((Markup.parse markup).toOption.elim [] Content.directives : List String) +
          Load.brought (x.process w document markup).2.loads)
        (markup :: (x.process w document markup).2.loads.map Load.source) f)
      (grave : f ≠ .noByteOrder) : Cause c a work (.build (.fragment f))
  | key {root : Path} {es : Entries} {f : Json.KeyFault} (shown : c = .config) (json : a.has "--json" = true)
      (found : Finds a work root es) (keys : ¬ Json.HasWritable es) : Cause c a work (.key f)

/-- A fault that the command reports, or that has a cause. -/
def Explained (c : Command) (a : Arguments) (work : Work) (f : Fault) : Prop :=
  c.reports f = true ∨ Cause c a work f

variable {c : Command} {a : Arguments} {work w w' : Work} {root : Path} {f : Fault}

/-! ### The project -/

theorem Stage.project (h : Stage a work root w) : ∃ w, Returns (project a) work root w := by
  cases h with
  | first found => exact ⟨_, found⟩
  | second found _ => exact ⟨_, found⟩

end Action
end CommandLine
end PageComposer
