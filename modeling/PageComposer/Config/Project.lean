/-
# The settings of a project

| layer | holds |
| --- | --- |
| bundled settings | every setting |
| project file | a map; the first of `htmlcompose.yaml` and `htmlcompose.yml` that exists |
| environment | variables, see `Config.Environment` |

A later layer lies over the ones before it. The result may be checked against the schema.
-/

import PageComposer.Config.Bundled
import PageComposer.Config.Environment
import PageComposer.Files.Home
import PageComposer.Logging.Record
import PageComposer.Yaml.File

namespace PageComposer
namespace Config

/-- The names of the project file. -/
def projectFileNames : List String := ["htmlcompose.yaml", "htmlcompose.yml"]

/-- The places of the project file. -/
def projectFilePlaces (root : Path) : List Path :=
  projectFileNames.map fun name => { root with parts := root.parts ++ [name] }

/-- Why there are no settings. -/
inductive Fault where
  /-- A path begins with a home directory that is not known. -/
  | unknownHome
  | access (fault : FileFault)
  | file (fault : Yaml.LoadFault)
  | notYaml (path : Path) (fault : Yaml.Fault)
  | notMap (path : Path)
  | variable (fault : VariableFault)
  | invalid (complaints : String)
  deriving Repr, DecidableEq, Inhabited

/-- The words for a fault. -/
def Fault.message : Fault → String
  | .unknownHome => "Could not determine home directory."
  | .access f => f.message
  | .file f => f.message
  | .notYaml path f => s!"Invalid YAML in {path.text}: {f.message}"
  | .notMap path => "Config file must contain a mapping: " ++ path.text
  | .variable f => f.message
  | .invalid complaints => "Configuration validation failed: " ++ complaints

/-- What a fault is about, by name. -/
def Fault.context : Fault → List (String × String)
  | .notYaml path _ | .notMap path => [("path", path.text)]
  | .invalid complaints => [("errors", complaints)]
  | _ => []

/-- Whether a fault lies in the settings themselves, rather than in a file or a path. -/
def Fault.isAboutSettings : Fault → Bool
  | .notYaml .. | .notMap _ | .invalid _ | .variable (.emptyPiece _) => true
  | _ => false

/-- The first path that something is at. -/
def firstPresent (w : FileTree) : List Path → Except FileFault (Option Path)
  | [] => .ok none
  | p :: rest =>
    match w.hasEntry p with
    | .error f => .error f
    | .ok true => .ok (some p)
    | .ok false => firstPresent w rest

/-- The project file. -/
def projectFile (w : FileTree) (root : Path) : Except FileFault (Option Path) :=
  firstPresent w (projectFilePlaces root)

/-- The settings in a project file. -/
def readProjectFile (w : FileTree) (p : Path) : Except Fault Entries :=
  match Yaml.loadOr w p (.map []) true with
  | .ok (.map es) => .ok es
  | .ok _ => .error (.notMap p)
  | .error f@(.content c) => .error (if c.isSyntactic then .notYaml p c else .file f)
  | .error f => .error (.file f)

/-- The settings of the project; none if there is no project file. -/
def projectSettings (w : FileTree) (root : Path) : Except Fault Entries :=
  match projectFile w root with
  | .error f => .error (.access f)
  | .ok none => .ok []
  | .ok (some p) => readProjectFile w p

/-- Settings as they are, or a fault if there are complaints about them. -/
def checked (es : Entries) : Except Fault Entries :=
  match complaints (.map es) with
  | none => .ok es
  | some text => .error (.invalid text)

/-- What came of loading settings. -/
structure Loaded where
  settings : Except Fault Entries
  /-- The key paths that were set from the environment. -/
  overridden : List (List String) := []

/-- What is noted of settings that came from the environment. -/
def Loaded.log (l : Loaded) : List Logging.Record :=
  l.overridden.map fun path =>
    ⟨10, "htmlcompose.core.config.manager",
      "Config override from environment: " ++ ".".intercalate path⟩

/-- The settings of the project with the given directory. -/
def loadSettings (w : FileTree) (vars : Variables) (root : Path) (validate : Bool) : Loaded :=
  match projectSettings w root with
  | .error f => { settings := .error f }
  | .ok es =>
    let r := applyVariables (Entries.merge defaults es) (settingVariables vars)
    { settings :=
        match r.fault? with
        | some f => .error (.variable f)
        | none => if validate then checked r.settings else .ok r.settings
      overridden := r.paths }

end Config
end PageComposer
