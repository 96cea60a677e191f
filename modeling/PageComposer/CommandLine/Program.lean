/-
# Running the program

A command works on the files, with a cache of settings and a logger of its own, and prints. It ends
with an exit code:

| code | when |
| --- | --- |
| 0 | the command was done, or help or the version was asked for |
| 1 | a fault was reported; `build --strict` met includes that could not be expanded |
| 2 | the arguments were misused |

A fault that is not reported ends the program without a code.
-/

import PageComposer.CommandLine.Commands
import PageComposer.CommandLine.Fault
import PageComposer.Config.Cache
import PageComposer.Logging.Logger
import PageComposer.Yaml.Writer

namespace PageComposer

/-- The listener that sends the records of a build to a logger. -/
def Logging.Logger.listener (logger : Logging.Logger) : Listener := fun w r => (logger.emit w r).tree

namespace CommandLine

/-- Where a command stands. -/
structure Work where
  tree : FileTree
  around : Config.Surroundings
  /-- The time in seconds, for the files that are written. -/
  time : Nat := 0
  /-- The time as it is told in reports. -/
  timestamp : String := ""
  cache : Config.Cache := []
  logger : Logging.Logger := {}
  printed : Printed := {}
  deriving Inhabited

/-- A step of a command, which changes where it stands, also if it ends in a fault. -/
abbrev Action (α : Type) := ExceptT Fault (StateM Work) α

namespace Action

/-- More print. -/
def print (p : Printed) : Action Unit :=
  modify fun work => { work with printed := work.printed ++ p }

/-- More print, of a value that JSON may not be able to write. -/
def printJson : Except Json.KeyFault Printed → Action Unit
  | .ok p => print p
  | .error f => throw (.key f)

/-- What settings give, or the fault in them. -/
def settled {α : Type} : Except Config.Fault α → Action α
  | .ok a => pure a
  | .error f => throw (.config f)

/-- A record, sent to the logger. -/
def log (r : Logging.Record) : Action Unit :=
  modify fun work =>
    let e := work.logger.emit work.tree r
    { work with tree := e.tree, printed := work.printed ++ Printed.error e.console }

/-- Records, sent to the logger. -/
def logAll (rs : List Logging.Record) : Action Unit := rs.forM log

/-- Files that were changed, or why they could not be. -/
def changed (r : FileTree × Option FileFault) : Action Unit := do
  modify fun work => { work with tree := r.1 }
  match r.2 with
  | none => pure ()
  | some f => throw (.build (.file f))

/-- A path without detours. -/
def resolve (p : Path) : Action Path := do
  if Text.holds p.text '\x00' then throw (.build (.file .nullCharacter))
  return p.resolve (← get).tree.here

/-- The directory of the project. -/
def project (a : Arguments) : Action Path := do
  match (a.text? "--project-root").bind Config.directory? with
  | some p => resolve p
  | none => return Path.ofLocation (← get).tree.here

/-- The settings of a project. -/
def settings (project : Path) : Action Entries := do
  let work ← get
  let (loaded, cache) := work.cache.get work.tree work.around (some project) true
  set { work with cache := cache }
  logAll loaded.log
  settled loaded.settings

/-- The logger as the settings and the arguments want it. -/
def setUpLogging (a : Arguments) (project : Path) : Action Unit := do
  let s := Config.LogSettings.ofSettings project (← settings project)
  let work ← get
  let path ← settled (s.path? work.around.homes)
  let level := match a.times "--verbose" with
    | 0 => s.level
    | 1 => "INFO"
    | _ => "DEBUG"
  let (logger, tree, fault) := work.logger.configure work.tree level path work.time
  set { work with logger := logger }
  changed (tree, fault)

/-- The settings of composition. -/
def composition (project : Path) : Action Config.Composition := do
  return Config.Composition.ofSettings project (← settings project)

/-- The printer that the arguments ask for. -/
def printer (a : Arguments) : Printer := { isJson := a.has "--json" }

/-- Builds pages. The records of a build are sent to the logger as they arise; the console gets them
when it is over. -/
def runBuild (b : PageBuilder) (names : Option (List String)) : Action (List Report) := do
  let work ← get
  let build := b.build work.tree work.logger.listener work.time names
  let console := (work.logger.emitAll work.tree build.log.reverse).console
  set { work with tree := build.tree, printed := work.printed ++ Printed.error console }
  match build.fault? with
  | some f => throw (.build f)
  | none => return build.reports.reverse

/-- The builder that the settings of a project make. -/
def builder (a : Arguments) : Action PageBuilder := do
  let root ← project a
  setUpLogging a root
  let c ← composition root
  settled (c.builder (← get).around.homes)

/-- The names of the pages to build, all of them if none is given. -/
def pageNames (a : Arguments) : Option (List String) := if a.values.isEmpty then none else some a.values

/-- The command `build`. -/
def build (a : Arguments) : Action Nat := do
  let b ← builder a
  let reports ← runBuild b (pageNames a)
  let failed := reports.any fun r => !r.errors.isEmpty
  let timestamp := (← get).timestamp
  let out := b.outDir.text
  printJson ((printer a).success
    [(.text "out_dir", .text out),
      (.text "pages", .list (reports.map fun r => r.toValue timestamp))]
    ("\n".intercalate (reports.map Report.summary ++
      [s!"Built {reports.length} page(s) into {out}"]))
    (if failed then "partial" else "success"))
  return if failed && a.has "--strict" then 1 else 0

/-- The command `config`. -/
def config (a : Arguments) : Action Nat := do
  let es ← settings (← project a)
  let shown (data : Entries) : Action Nat := do
    if a.has "--json" then printJson ((printer a).json (.map data))
    else
      let text := Yaml.write data
      let kept := (text.toList.reverse.dropWhile Text.isBlank).reverse
      print (Printer.line (String.ofList kept))
    return 0
  match a.values.headD "" with
  | "" => shown es
  | name =>
    match Entries.at? es name with
    | some v => shown [(.text name, v)]
    | none =>
      printJson ((printer a).error { message := Text.quoted name }
        ("Unknown config section: " ++ name))
      return 1

/-- The text of a document. -/
def readDocument (p : Path) (encoding : String) : Action String := do
  if Text.holds encoding '\x00' then
    throw (.build (.fragment (.nullCharacter "embedded null character")))
  match (← get).tree.readText p encoding with
  | .ok cs => return String.ofList cs
  | .error f => throw (.build (.page f))

/-- A text, written to a file whose directory is made if it is missing. -/
def writeDocument (p : Path) (encoding text : String) : Action Unit := do
  changed ((← get).tree.makeDirectories p.parent)
  let work ← get
  let data := ((Text.Encoding.ofName? encoding).map fun e => Text.encode e text).getD []
  match work.tree.write p data work.time with
  | .ok w => changed (w, none)
  | .error f => throw (.build (.file f))

/-- An argument that is not empty. -/
def given? (a : Arguments) (key : String) : Option String :=
  (a.text? key).bind fun s => if s == "" then none else some s

/-- Expands a document, its records sent to the logger. -/
def expandDocument (x : Expander) (document markup : String) : Action (String × Report) := do
  let (html, run) := x.process (← get).tree document markup
  logAll run.log.reverse
  match html, run.fault? with
  | some html, _ => return (html, run.report)
  | none, some f => throw (.build (.fragment f))
  | none, none => return ("", run.report)

/-- The command `render`. -/
def render (a : Arguments) : Action Nat := do
  let project ← project a
  setUpLogging a project
  let c ← composition project
  let root ← match given? a "--root" with
    | some r => resolve (Path.ofString r)
    | none => settled (Config.locate (← get).around.homes c.project c.root)
  let encoding := (given? a "--encoding").getD c.encoding
  let x : Expander :=
    { fragments := { root := root, encoding := encoding }
      maxDepth := (a.number? "--max-depth").getD c.maxDepth }
  let source := Path.ofString (a.values.headD "")
  let markup ← readDocument source encoding
  let (html, report) ← expandDocument x source.name markup
  let timestamp := (← get).timestamp
  match given? a "--output" with
  | some o =>
    let target := Path.ofString o
    writeDocument target encoding html
    let report := { report with output := some target }
    printJson ((printer a).success [(.text "report", report.toValue timestamp)] report.summary)
  | none =>
    if a.has "--json" then
      printJson ((printer a).json
        (.map [(.text "html", .text html), (.text "report", report.toValue timestamp)]))
    else print (Printer.line html)
  return 0

/-- An action whose faults are reported, those that `reported` holds of. -/
def reporting (a : Arguments) (code : String) (reported : Fault → Bool) (action : Action Nat) :
    Action Nat :=
  tryCatch action fun f => do
    if reported f then
      printJson ((printer a).error f.problem "" code)
      return 1
    else throw f

/-- A command. -/
def command (a : Arguments) : Command → Action Nat
  | .build => reporting a "build_error" Fault.isReported (build a)
  | .config => reporting a "config_error" Fault.isAboutSettings (config a)
  | .render => reporting a "render_error" Fault.isReported (render a)

/-- What a command line asks for. -/
def answer (args : List String) : Action Nat :=
  match request args with
  | .run c a => command a c
  | .tell text => do
    print { out := text }
    return 0
  | .refuse g message => do
    print (Printed.error (refusalText g message))
    return 2

end Action

/-- How the program ends: with an exit code or a fault, and where it stands then. -/
def run (work : Work) (args : List String) : Except Fault Nat × Work :=
  (Action.answer args).run.run work

end CommandLine
end PageComposer
