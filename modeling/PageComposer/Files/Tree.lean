/-
# The tree of files

A tree of directories and files, written as a list of its entries; the top directory always exists.

| access | refused when |
| --- | --- |
| any | a part before the last is missing or a file; a name has over 255 bytes, or the path over 4095; it holds a null character |
| `read` | the path is missing or a directory |
| `write` | it is a directory |
| `makeDirectory` | it exists |
| `removeTree` | it is missing or a file |

There are no links, so the entry that a path leads to depends on its parts alone. A file keeps its
identity while it is written again, and loses it when it is removed; a log goes on into the file that
it was opened on.
-/

import PageComposer.Files.Path
import PageComposer.Text.Encoding
import PageComposer.Text.Quoted

namespace PageComposer

/-- A file. -/
structure File where
  data : List UInt8
  /-- The time of the last change, in seconds. -/
  modified : Nat
  /-- What tells the file from every other. -/
  identity : Nat
  deriving Repr, DecidableEq, Inhabited

/-- What stands at a location. -/
inductive Entry where
  | file (f : File)
  | directory
  deriving Repr, DecidableEq, Inhabited

/-- Why an access is refused. -/
inductive Refusal where
  | notFound
  | exists
  | notDirectory
  | isDirectory
  | nameTooLong
  | notEmpty
  deriving Repr, DecidableEq, Inhabited

/-- The number of a refusal. -/
def Refusal.number : Refusal → Nat
  | .notFound => 2
  | .exists => 17
  | .notDirectory => 20
  | .isDirectory => 21
  | .nameTooLong => 36
  | .notEmpty => 39

/-- The words for a refusal. -/
def Refusal.words : Refusal → String
  | .notFound => "No such file or directory"
  | .exists => "File exists"
  | .notDirectory => "Not a directory"
  | .isDirectory => "Is a directory"
  | .nameTooLong => "File name too long"
  | .notEmpty => "Directory not empty"

/-- What is wrong with an access to a path. -/
inductive FileFault where
  | refused (why : Refusal) (path : String)
  | nullCharacter
  deriving Repr, DecidableEq, Inhabited

/-- The words for a fault. -/
def FileFault.message : FileFault → String
  | .refused why path => s!"[Errno {why.number}] {why.words}: " ++ Text.quoted path
  | .nullCharacter => "embedded null byte"

/-- Why a file cannot be read as text. -/
inductive ReadFault where
  | file (fault : FileFault)
  | unknownEncoding (name : String)
  | decode (fault : Text.DecodeFault)
  deriving Repr, DecidableEq, Inhabited

/-- The words for a fault. -/
def ReadFault.message : ReadFault → String
  | .file f => f.message
  | .unknownEncoding name => "unknown encoding: " ++ name
  | .decode f => f.message

/-- The entries of the file system below the top directory, and the current directory. -/
structure FileTree where
  entries : List (Location × Entry) := []
  here : Location := []
  /-- An identity that no file has. -/
  fresh : Nat := 0
  here_plain : ∀ part ∈ here, part ≠ ".." := by simp

instance : Inhabited FileTree := ⟨{}⟩

namespace FileTree

/-- The tree of some entries, seen from the top. -/
def ofEntries (entries : List (Location × Entry)) : FileTree := { entries := entries }

/-- The tree with a path as its current directory. -/
def enter (w : FileTree) (p : Path) : FileTree :=
  { w with here := p.locate w.here, here_plain := Path.mem_locate w.here_plain p }

/-- The entry at a location. -/
def at? (w : FileTree) (loc : Location) : Option Entry :=
  match loc with
  | [] => some .directory
  | loc => w.entries.lookup loc

/-- `es` with `entry` at `loc`. -/
def putEntry (loc : Location) (entry : Entry) :
    List (Location × Entry) → List (Location × Entry)
  | [] => [(loc, entry)]
  | e :: rest => if e.1 == loc then (loc, entry) :: rest else e :: putEntry loc entry rest

/-- The tree with `entry` at `loc`. -/
def put (w : FileTree) (loc : Location) (entry : Entry) : FileTree :=
  { w with entries := putEntry loc entry w.entries }

/-- The way from `loc` along `parts`; every directory on it has to exist, the last part need not. -/
def follow (w : FileTree) (loc : Location) : List String → Except Refusal Location
  | [] => .ok loc
  | part :: rest =>
    match w.at? loc with
    | none => .error .notFound
    | some (.file _) => .error .notDirectory
    | some .directory =>
      if part == ".." then w.follow loc.dropLast rest
      else if part.utf8ByteSize > 255 then .error .nameTooLong
      else w.follow (loc ++ [part]) rest

/-- The location that a path leads to. -/
def find (w : FileTree) (p : Path) : Except FileFault Location :=
  if Text.holds p.text '\x00' then .error .nullCharacter
  else if p.text.utf8ByteSize > 4095 then .error (.refused .nameTooLong p.text)
  else
    match w.follow (if p.isAbsolute then [] else w.here) p.parts with
    | .ok loc => .ok loc
    | .error why => .error (.refused why p.text)

/-- The entry that a path leads to. -/
def status (w : FileTree) (p : Path) : Except FileFault Entry := do
  let loc ← w.find p
  match w.at? loc with
  | some e => pure e
  | none => throw (.refused .notFound p.text)

/-- The entry that a path leads to, if there is one; a path that cannot lead anywhere leads to
none. -/
def status? (w : FileTree) (p : Path) : Except FileFault (Option Entry) :=
  match w.status p with
  | .ok e => .ok (some e)
  | .error (.refused .notFound _) => .ok none
  | .error (.refused .notDirectory _) => .ok none
  | .error .nullCharacter => .ok none
  | .error f => .error f

/-- Whether anything is at a path. -/
def hasEntry (w : FileTree) (p : Path) : Except FileFault Bool :=
  (w.status? p).map Option.isSome

/-- Whether a path leads to a directory. -/
def isDirectory (w : FileTree) (p : Path) : Except FileFault Bool :=
  (w.status? p).map fun e => e == some .directory

/-- Whether a path leads to a file. -/
def isFile (w : FileTree) (p : Path) : Except FileFault Bool :=
  (w.status? p).map fun e => match e with
    | some (.file _) => true
    | _ => false

/-- The file that a path leads to, opened for reading. -/
def openFile (w : FileTree) (p : Path) : Except FileFault File := do
  match ← w.status p with
  | .file f => pure f
  | .directory => throw (.refused .isDirectory p.text)

/-- The text of a file in the encoding of a name, lines ended by line feeds. -/
def readText (w : FileTree) (p : Path) (encoding : String) : Except ReadFault (List Char) := do
  let f ← match w.openFile p with
    | .ok f => pure f
    | .error e => throw (ReadFault.file e)
  match Text.Encoding.ofName? encoding with
  | none => throw (ReadFault.unknownEncoding encoding)
  | some e =>
    match Text.decode e f.data with
    | .ok cs => pure (Text.unixLines cs)
    | .error d => throw (ReadFault.decode d)

/-- The tree with `data` in the file that a path leads to, changed at `time`. -/
def write (w : FileTree) (p : Path) (data : List UInt8) (time : Nat) : Except FileFault FileTree := do
  let loc ← w.find p
  match w.at? loc with
  | some .directory => throw (.refused .isDirectory p.text)
  | some (.file f) => pure (w.put loc (.file { f with data := data, modified := time }))
  | none => pure { w.put loc (.file ⟨data, time, w.fresh⟩) with fresh := w.fresh + 1 }

/-- The tree with one more directory. -/
def makeDirectory (w : FileTree) (p : Path) : Except FileFault FileTree := do
  let loc ← w.find p
  match w.at? loc with
  | some _ => throw (.refused .exists p.text)
  | none => pure (w.put loc .directory)

/-- A fault, unless the path leads to a directory. -/
def unlessDirectory (w : FileTree) (p : Path) (fault : FileFault) : Option FileFault :=
  match w.isDirectory p with
  | .ok true => none
  | .ok false => some fault
  | .error f => some f

/-- A path as a directory with all those above it, made where they are missing; `n` bounds how far
up. The tree may have changed even if this ends in a fault. -/
def makeDirectoriesFrom (w : FileTree) (p : Path) (n : Nat) : FileTree × Option FileFault :=
  match w.makeDirectory p with
  | .ok w => (w, none)
  | .error .nullCharacter => (w, some .nullCharacter)
  | .error (.refused .notFound path) =>
    match n with
    | 0 => (w, some (.refused .notFound path))
    | n + 1 =>
      if p.parts.isEmpty then (w, some (.refused .notFound path))
      else
        match w.makeDirectoriesFrom p.parent n with
        | (w, some f) => (w, some f)
        | (w, none) =>
          match w.makeDirectory p with
          | .ok w => (w, none)
          | .error (.refused .notFound path) => (w, some (.refused .notFound path))
          | .error f => (w, w.unlessDirectory p f)
  | .error f => (w, w.unlessDirectory p f)

/-- A path as a directory with all those above it, made where they are missing. -/
def makeDirectories (w : FileTree) (p : Path) : FileTree × Option FileFault :=
  w.makeDirectoriesFrom p p.parts.length

/-- Whether `loc` lies below `top`. -/
def isBelow (top loc : Location) : Bool :=
  top.isPrefixOf loc && top.length < loc.length

/-- The directory that a path leads to, removed with all that is in it. What is in it goes first; if
the path then leads nowhere any more, the directory itself stays. -/
def removeTree (w : FileTree) (p : Path) : FileTree × Option FileFault :=
  match w.status p, w.find p with
  | .error f, _ => (w, some f)
  | _, .error f => (w, some f)
  | .ok (.file _), .ok _ => (w, some (.refused .notDirectory p.text))
  | .ok .directory, .ok loc =>
    let emptied := { w with entries := w.entries.filter fun e => !isBelow loc e.1 }
    match emptied.find p with
    | .error f => (emptied, some f)
    | .ok _ =>
      if p.parts.getLast? == some ".." then (emptied, some (.refused .notEmpty p.text))
      else ({ emptied with entries := emptied.entries.filter fun e => !(e.1 == loc) }, none)

/-- The tree without the file at a path. -/
def removeFile (w : FileTree) (p : Path) : Except FileFault FileTree := do
  let loc ← w.find p
  match w.at? loc with
  | none => throw (.refused .notFound p.text)
  | some .directory => throw (.refused .isDirectory p.text)
  | some (.file _) => pure { w with entries := w.entries.filter fun e => !(e.1 == loc) }

/-- The names in a directory. -/
def names (w : FileTree) (loc : Location) : List String :=
  w.entries.filterMap fun e =>
    match e.1.getLast? with
    | some name => if e.1.dropLast == loc then some name else none
    | none => none

/-- The tree with a file at a path, a new one if there is none, and the identity of that file. -/
def openToAppend (w : FileTree) (p : Path) (time : Nat) : Except FileFault (FileTree × Nat) := do
  let loc ← w.find p
  match w.at? loc with
  | some .directory => throw (.refused .isDirectory p.text)
  | some (.file f) => pure (w, f.identity)
  | none => pure ({ w.put loc (.file ⟨[], time, w.fresh⟩) with fresh := w.fresh + 1 }, w.fresh)

/-- The tree with `data` at the end of the file of an identity, if it still exists. -/
def append (w : FileTree) (identity : Nat) (data : List UInt8) : FileTree :=
  { w with entries := w.entries.map fun e =>
      match e.2 with
      | .file f =>
        if f.identity == identity then (e.1, .file { f with data := f.data ++ data }) else e
      | .directory => e }

/-- The locations of the files. -/
def files (w : FileTree) : List Location :=
  w.entries.filterMap fun e =>
    match e.2 with
    | .file _ => some e.1
    | .directory => none

theorem mem_files_of_at? {w : FileTree} {loc : Location} {f : File}
    (h : w.at? loc = some (.file f)) : loc ∈ w.files := by
  cases loc with
  | nil => simp [at?] at h
  | cons a as =>
    have hl : List.lookup (a :: as) w.entries = some (Entry.file f) := h
    have hmem : (a :: as, Entry.file f) ∈ w.entries := by
      generalize w.entries = es at hl
      induction es with
      | nil => simp at hl
      | cons e rest ih =>
        obtain ⟨k, v⟩ := e
        rw [List.lookup_cons] at hl
        split at hl
        · rename_i hk
          obtain rfl := Option.some.inj hl
          have : a :: as = k := by simpa using hk
          simp [this]
        · exact List.mem_cons_of_mem _ (ih hl)
    exact List.mem_filterMap.2 ⟨_, hmem, rfl⟩

/-- The paths of the files. -/
def filePaths (w : FileTree) : List Path := w.files.map Path.ofLocation

theorem follow_eq_append {w : FileTree} {loc loc' : Location} {parts : List String}
    (plain : ∀ part ∈ parts, part ≠ "..") (h : w.follow loc parts = .ok loc') :
    loc' = loc ++ parts := by
  induction parts generalizing loc with
  | nil =>
    simp only [follow] at h
    simpa using (Except.ok.inj h).symm
  | cons part rest ih =>
    have hpart : part ≠ ".." := plain part (by simp)
    simp only [follow] at h
    split at h
    · cases h
    · cases h
    · rw [if_neg (by simpa using hpart)] at h
      split at h
      · cases h
      · simpa using ih (fun q hq => plain q (List.mem_cons_of_mem _ hq)) h

/-- A path without `..` leads to the location it spells. -/
theorem find_ofLocation {w : FileTree} {loc loc' : Location} (plain : ∀ part ∈ loc, part ≠ "..")
    (h : w.find (Path.ofLocation loc) = .ok loc') : loc' = loc := by
  unfold find at h
  split at h
  · cases h
  · split at h
    · cases h
    · split at h
      · rename_i hf
        obtain rfl := Except.ok.inj h
        simpa [Path.ofLocation, Path.isAbsolute] using follow_eq_append plain hf
      · cases h

/-- What can be read as text is a file. -/
theorem mem_filePaths_of_readText {w : FileTree} {loc : Location} {encoding : String}
    {cs : List Char} (plain : ∀ part ∈ loc, part ≠ "..")
    (h : w.readText (Path.ofLocation loc) encoding = .ok cs) :
    Path.ofLocation loc ∈ w.filePaths := by
  have hopen : ∃ f, w.openFile (Path.ofLocation loc) = .ok f := by
    unfold readText at h
    cases ho : w.openFile (Path.ofLocation loc) with
    | ok f => exact ⟨f, rfl⟩
    | error e => rw [ho] at h; cases h
  obtain ⟨f, hf⟩ := hopen
  have hentry : w.at? loc = some (.file f) := by
    unfold openFile status at hf
    cases hfind : w.find (Path.ofLocation loc) with
    | error e => rw [hfind] at hf; cases hf
    | ok loc' =>
      obtain rfl := find_ofLocation plain hfind
      rw [hfind] at hf
      cases he : w.at? loc' with
      | none => simp [bind, Except.bind, he] at hf
      | some e =>
        cases e with
        | directory => simp [bind, Except.bind, he, pure, Except.pure] at hf
        | file g =>
          simp [bind, Except.bind, he, pure, Except.pure] at hf
          rw [hf]
  exact List.mem_map.2 ⟨loc, mem_files_of_at? hentry, rfl⟩

end FileTree
end PageComposer
