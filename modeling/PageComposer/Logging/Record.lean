/-
# Log records

| level | name |
| --- | --- |
| 50 | `CRITICAL`, also called `FATAL` |
| 40 | `ERROR` |
| 30 | `WARNING`, also called `WARN` |
| 20 | `INFO` |
| 10 | `DEBUG` |
| 0 | `NOTSET` |

A level is written by the first of its names, and as `Level 25` where it has none.
-/

namespace PageComposer
namespace Logging

/-- The levels by their names, the name for writing one before the others. -/
def levels : List (String × Int) :=
  [("CRITICAL", 50), ("FATAL", 50), ("ERROR", 40), ("WARNING", 30), ("WARN", 30), ("INFO", 20),
    ("DEBUG", 10), ("NOTSET", 0)]

/-- The level of a name. -/
def level? (name : String) : Option Int := levels.lookup name

/-- The name of a level. -/
def levelName (level : Int) : String :=
  match levels.find? fun l => l.2 == level with
  | some l => l.1
  | none => s!"Level {level}"

/-- Something that was noted. -/
structure Record where
  level : Int
  /-- Who notes it: a name of parts with points between them. -/
  source : String
  message : String
  deriving Repr, DecidableEq, Inhabited

/-- A record on one line. -/
def Record.line (r : Record) : String :=
  s!"{levelName r.level} {r.source}: {r.message}"

end Logging
end PageComposer
