/-
# What ends a build

A build ends before its first page, or with the first page that cannot be built (`PageBuilder.fault_of_foldl`).

| where | faults | lemma |
| --- | --- | --- |
| discovering pages | a path that cannot be looked up, as something is too long | `refused_of_discover` |
| emptying and making the output directory | it holds sources; a file fault, of a path of the builder if it is about a null character | `fault_of_prepare` |
| a page | its encoding, its text, its expansion, its place | `PageEnds` |

A page has been found, so its path holds no null character, and neither does the name that its result gets
(`not_holdsNull_of_select`).
-/

import PageComposer.Proofs.Files.Nulls
import PageComposer.Proofs.Pages.Selection
import PageComposer.Proofs.Pages.Stages

namespace PageComposer

namespace Build

end Build

namespace PageBuilder

variable {b : PageBuilder} {listen : Listener} {time : Nat}

/-! ### Before the first page -/

/-- The paths that a builder is made with. -/
def Named (b : PageBuilder) (p : Path) : Prop :=
  p = b.pagesDir ∨ p = b.expander.fragments.root ∨ p = b.outDir

end PageBuilder
end PageComposer
