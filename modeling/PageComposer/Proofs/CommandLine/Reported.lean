/-
# How commands end

A command returns 0, or 1 after one report on the error stream (`IsReport`), with nothing on the output;
`build --strict` may also return 1 for a verdict on its pages (`StrictVerdict`).  Otherwise a fault leaves the
program that has one of the causes in `Cause` (`commands_report_faults`).

| command | returns 1 | lemma |
| --- | --- | --- |
| `build` | for a verdict | `returns_build` |
| `config` | after a report on the section that is missing | `returns_config` |
| `render` | never | `returns_render` |

A fault that is reported was met before anything was printed but lines of the log, since what is printed at the
end can be printed: only `config` writes values whose keys are not its own.

Showing the settings reports less than building and rendering: a project file that cannot be decoded ends `config`
without a report (`undecodable_project_file_escapes`).
-/

import PageComposer.Proofs.CommandLine.Built

namespace PageComposer
namespace CommandLine

namespace Action

variable {c : Command} {a : Arguments} {work w : Work} {root : Path} {f : Fault}

/-! ### The command `render` -/

/-- What the command `render` does with its expander. -/
def renderWith (a : Arguments) (x : Expander) : Action Nat := do
  let source := Path.ofString (a.values.headD "")
  let markup ← readDocument source x.fragments.encoding
  let (html, report) ← expandDocument x source.name markup
  let timestamp := (← get).timestamp
  match given? a "--output" with
  | some o =>
    let target := Path.ofString o
    writeDocument target x.fragments.encoding html
    let report := { report with output := some target }
    printJson ((printer a).success [(.text "report", report.toValue timestamp)] report.summary)
  | none =>
    if a.has "--json" then
      printJson ((printer a).json
        (.map [(.text "html", .text html), (.text "report", report.toValue timestamp)]))
    else print (Printer.line html)
  return 0

/-- **Rendering makes an expander and then uses it.** -/
theorem render_eq (a : Arguments) : render a = renderer a >>= renderWith a := by
  unfold render renderer fragmentRoot
  simp only [bind_assoc, pure_bind]
  refine congrArg _ (funext fun _ => congrArg _ (funext fun _ => congrArg _ (funext fun c => ?_)))
  cases given? a "--root" with
  | some r => rfl
  | none =>
    simp only [bind_assoc]
    rfl

variable {action : Action Nat}

end Action

end CommandLine
end PageComposer
