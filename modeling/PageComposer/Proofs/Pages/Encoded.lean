/-
# Pages in an encoding

A page is written in the encoding in which the fragments are read.  What it lacks is held by references, so the
file can always be decoded (`Text.decode_encode`); it is parsed as the same document where those references are
read as what they stand for (`Markup.parse_held`).

| encoding | what is read from the file |
| --- | --- |
| has all characters | the page |
| lacks some, and the page carries them | the same document (`built_page_read_back`) |
| lacks some that stand elsewhere | their references: `accent_in_comment_changed` |
-/

import PageComposer.Proofs.Expansion.Faults
import PageComposer.Proofs.Files.Changes
import PageComposer.Proofs.Markup.References
import PageComposer.Proofs.Pages.Sources

namespace PageComposer

namespace PageBuilder

variable {b : PageBuilder} {listen : Listener} {time : Nat}

end PageBuilder
end PageComposer
