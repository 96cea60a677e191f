/-
# Reports on expansions

A report tells which fragments a document included, in the order in which they were done, how many
placeholders were resolved, and what went wrong: warnings about includes without a valid reference,
errors about fragments that could not be used.
-/

import PageComposer.Files.Path
import PageComposer.Value.Basic

namespace PageComposer

/-- What an expansion did to a document. -/
structure Report where
  /-- The name of the document. -/
  document : String := "<document>"
  /-- Where the result was written. -/
  output : Option Path := none
  /-- The references of the resolved includes. -/
  includes : List String := []
  /-- The number of resolved placeholders. -/
  placeholders : Int := 0
  warnings : List String := []
  errors : List String := []
  deriving Repr, DecidableEq, Inhabited

namespace Report

/-- Whether there are warnings or errors. -/
def hasIssues (r : Report) : Bool := !(r.warnings.isEmpty && r.errors.isEmpty)

/-- The report with one more resolved include. -/
def addInclude (r : Report) (src : String) : Report := { r with includes := r.includes ++ [src] }

/-- The report with one more warning. -/
def addWarning (r : Report) (message : String) : Report :=
  { r with warnings := r.warnings ++ [message] }

/-- The report with one more error. -/
def addError (r : Report) (message : String) : Report := { r with errors := r.errors ++ [message] }

/-- The report with `n` more resolved placeholders. -/
def addPlaceholders (r : Report) (n : Int) : Report :=
  { r with placeholders := r.placeholders + n }

/-- A summary for readers, a line for each fact. -/
def summary (r : Report) : String :=
  "\n".intercalate <|
    [s!"Expansion Report: {r.document}", s!"  Includes: {r.includes.length}",
      s!"  Placeholders: {r.placeholders}"] ++
    (r.output.map fun p => "  Output: " ++ p.text).toList ++
    (r.warnings.map fun m => "  WARNING: " ++ m) ++
    (r.errors.map fun m => "  ERROR: " ++ m)

/-- The report as a value, with the time it was begun. -/
def toValue (r : Report) (timestamp : String) : Value :=
  .map [(.text "document", .text r.document), (.text "timestamp", .text timestamp),
    (.text "output_path", match r.output with
      | some p => .text p.text
      | none => .null),
    (.text "includes_resolved", .list (r.includes.map .text)),
    (.text "placeholders_resolved", .int r.placeholders),
    (.text "warnings", .list (r.warnings.map .text)),
    (.text "errors", .list (r.errors.map .text))]

end Report
end PageComposer
