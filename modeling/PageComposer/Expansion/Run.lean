/-
# The course of an expansion

An expansion keeps a report and a log. A fault ends it: from then on nothing changes.

| note | log | report |
| --- | --- | --- |
| `warn` | warning | a warning |
| `fail` | error | an error |
| `debug` | debug | nothing |
| `load` | debug | nothing |

The content that a resolved include had is released: it is no part of the document any more, but
whoever holds it sees what has become of it.
-/

import PageComposer.Expansion.Fragment
import PageComposer.Expansion.Report
import PageComposer.Logging.Record

namespace PageComposer

/-- What was read for a directive. -/
structure Load where
  /-- The paths of the fragments around the directive, the outermost first. -/
  stack : List Path
  /-- The reference of the directive. -/
  reference : String
  /-- The path that the reference leads to. -/
  path : Path
  /-- What the directive binds. -/
  slots : SlotMap
  /-- The text of the file. -/
  text : String
  deriving Repr, DecidableEq, Inhabited

/-- The text with the placeholders inside its attribute values replaced. -/
def Load.source (l : Load) : String := AttributeSlots.rewrite l.slots l.text

/-- Where an expansion stands beside the document. -/
structure Run where
  report : Report := {}
  /-- The log, the last record first. -/
  log : List Logging.Record := []
  /-- The content that resolved includes had. -/
  released : List Content := []
  /-- What was read for directives, the last first. -/
  loads : List Load := []
  /-- What ended the expansion. -/
  fault? : Option FragmentFault := none
  deriving Repr, DecidableEq, Inhabited

/-- Who notes what an expansion does. -/
inductive Speaker where
  | engine
  | loader
  | slots
  deriving Repr, DecidableEq, Inhabited

/-- The name under which a speaker logs. -/
def Speaker.source : Speaker → String
  | .engine => "htmlcompose.core.composition.engine"
  | .loader => "htmlcompose.core.composition.loader"
  | .slots => "htmlcompose.core.composition.slots"

namespace Run

/-- The run with one more record. -/
def note (run : Run) (level : Int) (speaker : Speaker) (message : String) : Run :=
  { run with log := ⟨level, speaker.source, message⟩ :: run.log }

/-- A remark for debugging. -/
def debug (run : Run) (speaker : Speaker) (message : String) : Run := run.note 10 speaker message

/-- A fragment that was read. -/
def load (run : Run) (l : Load) : Run :=
  { run.debug .loader s!"Loaded fragment {l.reference} ({l.source.length} chars)" with
    loads := l :: run.loads }

/-- A warning. -/
def warn (run : Run) (message : String) : Run :=
  { run.note 30 .engine message with report := run.report.addWarning message }

/-- An error about one directive. -/
def fail (run : Run) (message : String) : Run :=
  { run.note 40 .engine message with report := run.report.addError message }

/-- The end of the expansion. -/
def abort (run : Run) (fault : FragmentFault) : Run := { run with fault? := some fault }

/-- Whether the expansion has ended. -/
def isOver (run : Run) : Bool := run.fault?.isSome

/-- Directives that others have dealt with before. -/
def skip (run : Run) (sources : List String) : Run :=
  if run.isOver then run
  else sources.foldl
    (fun run src => run.debug .engine s!"Include {src} already processed; skipping") run

/-- The name of a placeholder as it is told. -/
def shownName : Option String → String
  | some name => Text.quoted name
  | none => "None"

/-- Placeholders that were resolved. -/
def resolved (run : Run) (names : List (Option String)) : Run :=
  let run := names.foldl
    (fun run name => run.debug .slots ("Resolved placeholder " ++ shownName name)) run
  { run with report := run.report.addPlaceholders names.length }

/-- An include that was resolved. -/
def included (run : Run) (src : String) : Run := { run with report := run.report.addInclude src }

/-- Content that a resolved include had. -/
def release (run : Run) (items : List Content) : Run :=
  { run with released := run.released ++ items }

end Run
end PageComposer
