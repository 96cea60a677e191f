/-
# Fragments

Every include names its fragment by a reference, seen from one root directory wherever the include
stands. The source text of a fragment has the placeholders inside its attribute values replaced
before it is parsed.

| fault | when |
| --- | --- |
| `unreadable` | there is no such file, or its bytes are no text in the encoding |
| `nullCharacter` | the reference or the encoding holds a null character |
| `unknownEncoding` | the encoding is not known |
| `noByteOrder` | the encoding requires a byte order mark and there is none |
| `markup` | the text is refused as markup |
-/

import PageComposer.Document.AttributeSlots
import PageComposer.Files.Tree
import PageComposer.Markup.Tree

namespace PageComposer

/-- Why there is no fragment. -/
inductive FragmentFault where
  | unreadable (path : Path) (reason : String)
  | nullCharacter (message : String)
  | unknownEncoding (name : String)
  | noByteOrder
  | markup (fault : Markup.Fault)
  deriving Repr, DecidableEq, Inhabited

/-- The words for a fault. -/
def FragmentFault.message : FragmentFault → String
  | .unreadable path _ => "Could not read file: " ++ path.text
  | .nullCharacter m => m
  | .unknownEncoding name => "unknown encoding: " ++ name
  | .noByteOrder => Text.DecodeFault.noByteOrder.message
  | .markup f => f.message

/-- Where fragments are and how they are written. -/
structure Fragments where
  /-- The directory that references are seen from. -/
  root : Path
  /-- The encoding of fragments. -/
  encoding : String := "utf-8"
  deriving Repr, DecidableEq, Inhabited

namespace Fragments

variable (fs : Fragments) (w : FileTree)

/-- The path that a reference leads to. -/
def resolve (src : String) : Except FragmentFault Path :=
  let p := fs.root.join (Path.ofString src)
  if Text.holds p.text '\x00' then .error (.nullCharacter "embedded null byte")
  else .ok (p.resolve w.here)

/-- The text of the file that a path leads to. -/
def readPath (path : Path) : Except FragmentFault (List Char) :=
  if Text.holds fs.encoding '\x00' then .error (.nullCharacter "embedded null character")
  else
    match w.readText path fs.encoding with
    | .ok cs => .ok cs
    | .error (.unknownEncoding name) => .error (.unknownEncoding name)
    | .error (.decode .noByteOrder) => .error .noByteOrder
    | .error f => .error (.unreadable path f.message)

/-- The text of the fragment of a reference. -/
def read (src : String) : Except FragmentFault String := do
  let path ← fs.resolve w src
  return String.ofList (← fs.readPath w path)

/-- The fragment of a reference, with the text that it was parsed from. -/
def load (src : String) (slots : SlotMap) : Except FragmentFault (List Content) := do
  let source := AttributeSlots.rewrite slots (← fs.read w src)
  match Markup.parse source with
  | .ok items => pure items
  | .error f => throw (.markup f)

theorem resolve_eq_ofLocation {fs : Fragments} {w : FileTree} {src : String} {path : Path}
    (h : fs.resolve w src = .ok path) :
    ∃ loc, path = Path.ofLocation loc ∧ ∀ part ∈ loc, part ≠ ".." := by
  unfold resolve at h
  dsimp only at h
  split at h
  · cases h
  · exact ⟨_, (Except.ok.inj h).symm, Path.mem_locate w.here_plain _⟩

/-- What a reference leads to is a file, if it can be read. -/
theorem mem_filePaths_of_readPath {fs : Fragments} {w : FileTree} {src : String} {path : Path}
    {cs : List Char} (hr : fs.resolve w src = .ok path) (h : fs.readPath w path = .ok cs) :
    path ∈ w.filePaths := by
  obtain ⟨loc, rfl, plain⟩ := resolve_eq_ofLocation hr
  unfold readPath at h
  split at h
  · cases h
  · split at h
    · rename_i hread
      exact FileTree.mem_filePaths_of_readText plain hread
    all_goals cases h

end Fragments
end PageComposer
