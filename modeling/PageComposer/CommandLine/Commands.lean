/-
# The commands

| command | does |
| --- | --- |
| `build` | builds the pages of the project |
| `config` | shows the settings |
| `render` | expands one document |

All take `--json`, `--project-root` and `--verbose`.
-/

import PageComposer.CommandLine.Usage

namespace PageComposer
namespace CommandLine

/-- A command. -/
inductive Command where
  | build
  | config
  | render
  deriving Repr, DecidableEq, Inhabited

namespace Command

/-- All commands by name. -/
def all : List (String × Command) := [("build", .build), ("config", .config), ("render", .render)]

/-- What a command does, in one line. -/
def summary : Command → String
  | .build => "Build every page of the project into the output directory"
  | .config => "Show the effective configuration"
  | .render => "Expand includes in one document and print the result"

end Command

/-- The flag that asks for help. -/
def helpFlag : Flag := ⟨["-h", "--help"], .help, "show this help message and exit"⟩

/-- The flags of every command. -/
def commonFlags : List Flag :=
  [⟨["--json"], .mark, "Output as JSON"⟩,
   ⟨["--project-root"], .text, "Project root directory (default: current directory)"⟩,
   ⟨["--verbose", "-v"], .mark, "Increase log verbosity (-v: INFO, -vv: DEBUG)"⟩]

/-- The name of the program. -/
def programName : String := "htmlcompose"

/-- The version of the program. -/
def programVersion : String := "1.0.0"

/-- The arguments of a command. -/
def Command.grammar : Command → Grammar
  | .build =>
    { program := programName ++ " build"
      flags := [helpFlag, ⟨["--strict"], .mark,
        "Exit non-zero when any include could not be expanded"⟩] ++ commonFlags
      place := "pages", count := .any
      help := "Page names to build (file stems; default: all pages)" }
  | .config =>
    { program := programName ++ " config"
      flags := helpFlag :: commonFlags
      place := "section", count := .atMostOne
      help := "Only show this top-level section (e.g. composition)" }
  | .render =>
    { program := programName ++ " render"
      flags := [helpFlag,
        ⟨["--root"], .text,
          "Directory include paths are resolved against (default: composition.root)"⟩,
        ⟨["--encoding"], .text, "Text encoding (default: composition.encoding)"⟩,
        ⟨["--max-depth"], .integer, "Maximum fragment nesting depth"⟩,
        ⟨["--output", "-o"], .text, "Write to this file instead of stdout"⟩] ++ commonFlags
      place := "file", count := .one
      help := "Document to expand" }

/-- The arguments of the program. -/
def programGrammar : Grammar :=
  { program := programName
    flags := [helpFlag, ⟨["--version"], .version, "show program's version number and exit"⟩]
    place := "<command>", count := .command
    help := "Available commands" }

/-- The help of the program. -/
def programHelp : String :=
  programGrammar.programHelp (programName ++ " - HTML include and named-slot composition")
    (Command.all.map fun c => (c.1, c.2.summary))

/-- What a command line asks for. -/
inductive Request where
  | run (command : Command) (arguments : Arguments)
  /-- A text on the output. -/
  | tell (text : String)
  /-- A misuse, of a command or of the program. -/
  | refuse (grammar : Grammar) (message : String)
  deriving Repr, DecidableEq, Inhabited

/-- The request that reading ended in. -/
def Halt.request (grammar : Grammar) (help : String) : Halt → Request
  | .help => .tell help
  | .version => .tell (programName ++ " " ++ programVersion ++ "\n")
  | .misuse message => .refuse grammar message

/-- The request of a program that met unknown arguments. -/
def unknownArguments (args : List String) : Request :=
  .refuse programGrammar ("unrecognized arguments: " ++ " ".intercalate args)

/-- The request of a command, after unknown arguments. -/
def commandRequest (command : Command) (args unknown : List String) : Request :=
  match command.grammar.read args with
  | .error h => h.request command.grammar command.grammar.commandHelp
  | .ok a =>
    let unknown := unknown ++ a.unknown
    if unknown.isEmpty then .run command a else unknownArguments unknown

/-- What a command line asks for. -/
def request (args : List String) : Request :=
  match programGrammar.read args with
  | .error h => h.request programGrammar programHelp
  | .ok a =>
    match a.values with
    | [] => if a.unknown.isEmpty then .tell programHelp else unknownArguments a.unknown
    | name :: rest =>
      match Command.all.lookup name with
      | some c => commandRequest c rest a.unknown
      | none =>
        .refuse programGrammar
          ("argument " ++ programGrammar.place ++ ": invalid choice: " ++ Text.quoted name ++
            " (choose from " ++ ", ".intercalate (Command.all.map fun c => Text.quoted c.1) ++ ")")

/-- A misuse as it is told on the error stream. -/
def refusalText (g : Grammar) (message : String) : String :=
  g.usage ++ g.program ++ ": error: " ++ message ++ "\n"

end CommandLine
end PageComposer
