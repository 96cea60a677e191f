/-
# What ends a command

| fault | of |
| --- | --- |
| `config` | the settings |
| `build` | files, pages and fragments |
| `key` | a map that JSON cannot write |

Commands report the faults that users can mend: those in their files and settings. All others leave the
program.
-/

import PageComposer.CommandLine.Output
import PageComposer.Config.Settings

namespace PageComposer
namespace CommandLine

/-- What ends a command. -/
inductive Fault where
  | config (fault : Config.Fault)
  | build (fault : BuildFault)
  | key (fault : Json.KeyFault)
  deriving Repr, DecidableEq, Inhabited

namespace Fault

/-- The words for a fault. -/
def message : Fault → String
  | .config f => f.message
  | .build f => f.message
  | .key f => f.message

/-- Texts as entries. -/
def textEntries (context : List (String × String)) : Entries :=
  context.map fun e => (.text e.1, .text e.2)

/-- A fault as it is told. -/
def problem (f : Fault) : Problem :=
  match f with
  | .config c =>
    { message := f.message
      kind? := if c.isAboutSettings then some "ConfigError" else none
      context := textEntries c.context }
  | .build (.holdsSource out label source) =>
    { message := f.message, kind? := some "ConfigError"
      context := textEntries [("out_dir", out.text), (label, source.text)] }
  | .build (.fragment (.markup (.numeral _))) => { message := f.message }
  | .build (.fragment (.markup _)) => { message := f.message, kind? := some "MarkupParseError" }
  | .build (.fragment (.unreadable path reason)) =>
    { message := f.message, kind? := some "FragmentReadError"
      context := textEntries [("path", path.text), ("reason", reason)] }
  | _ => { message := f.message }

/-- Whether a fault is one of a file that cannot be used. -/
def isOfFile : FileFault → Bool
  | .refused .. => true
  | .nullCharacter => false

/-- Whether a fault is one of a file that cannot be used or decoded. -/
def isOfText : ReadFault → Bool
  | .file f => isOfFile f
  | .unknownEncoding _ => false
  | .decode _ => true

/-- Whether building and rendering report a fault. -/
def isReported (f : Fault) : Bool :=
  f.problem.kind?.isSome ||
    match f with
    | .config (.access f) => isOfFile f
    | .config (.file (.unreachable f)) => isOfFile f
    | .config (.file (.missing _)) => true
    | .config (.file (.unreadable f)) => isOfText f
    | .build (.file f) => isOfFile f
    | .build (.page f) => isOfText f
    | .build (.fragment .noByteOrder) => true
    | _ => false

/-- Whether showing the settings reports a fault. -/
def isAboutSettings : Fault → Bool
  | .config f => f.isAboutSettings
  | _ => false

end Fault
end CommandLine
end PageComposer
