/-
# What commands print

| what | text mode | JSON mode |
| --- | --- | --- |
| success | the message | the data after a status |
| error | `Error: ` and the message, on the error stream | code, message and details, on the error stream |
| JSON | the value | the value |
| text | the text | the text |

A problem of the program itself has details: its kind and what it is about.
-/

import PageComposer.Json.Writer

namespace PageComposer
namespace CommandLine

/-- What was printed. -/
structure Printed where
  out : String := ""
  err : String := ""
  deriving Repr, DecidableEq, Inhabited

/-- What was printed, and then more. -/
instance : Append Printed where
  append a b := ⟨a.out ++ b.out, a.err ++ b.err⟩

/-- A text on the error stream. -/
def Printed.error (s : String) : Printed := { err := s }

/-- Something that went wrong, as it is told. -/
structure Problem where
  message : String
  /-- The kind of a problem of the program itself. -/
  kind? : Option String := none
  /-- What the problem is about. -/
  context : Entries := []
  deriving Repr, Inhabited

/-- The details of a problem of some kind. -/
def Problem.details (p : Problem) (kind : String) : Value :=
  .map [(.text "message", .text p.message), (.text "code", .text kind),
    (.text "context", .map p.context)]

/-- How results are printed. -/
structure Printer where
  isJson : Bool := false
  /-- The blanks by which the lines of JSON text stand in at each level; without them it is one
  line. -/
  indent : Option Int := some 2
  deriving Repr, DecidableEq, Inhabited

namespace Printer

/-- One line on the output. -/
def line (s : String) : Printed := { out := s ++ "\n" }

/-- A value as JSON text. -/
def json (p : Printer) (v : Value) : Except Json.KeyFault Printed :=
  (Json.write p.indent v).map line

/-- A success: its data, or a message about it. -/
def success (p : Printer) (data : Entries) (message : String) (status : String := "success") :
    Except Json.KeyFault Printed :=
  if p.isJson then p.json (.map (Entries.putAll [(.text "status", .text status)] data))
  else .ok (line message)

/-- A problem, with another message if that is not empty. -/
def error (p : Printer) (problem : Problem) (message : String := "") (code : String := "error") :
    Except Json.KeyFault Printed :=
  let told := if message == "" then problem.message else message
  if p.isJson then
    let details := problem.kind?.toList.map fun k => (Value.text "details", problem.details k)
    (Json.write p.indent
      (.map ([(.text "error", .text code), (.text "message", .text told)] ++ details))).map
        fun s => { err := s ++ "\n" }
  else .ok { err := "Error: " ++ told ++ "\n" }

end Printer
end CommandLine
end PageComposer
