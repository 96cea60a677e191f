/-
# The program

What a command may need is read first: the current directory, what the arguments name and what the
settings name, each with all that is in it. The command then runs on that tree of files, and what it
changed is brought back to the disk.

| read from | what |
| --- | --- |
| `/proc/self/environ` | the variables |
| `/etc/passwd` | the home directories |
| `/proc/self` | the time, as that of the beginning of the process |

A fault that leaves the program is told on the error stream and ends it with code 1. Times are those
of universal time.
-/

import PageComposer.CommandLine.Program
import PageComposer.Value.Calendar

namespace PageComposer
namespace Disk

/-- The path of a location, as the disk knows it. -/
def pathOf (loc : Location) : String := (Path.ofLocation loc).text

/-- The texts that a byte separates. What is no text is left out. -/
def fields (separator : UInt8) (bytes : ByteArray) : List String :=
  let pieces := bytes.toList.foldr (fun b fs =>
    if b == separator then [] :: fs
    else match fs with
      | f :: rest => (b :: f) :: rest
      | [] => [[b]]) [[]]
  pieces.filterMap fun f => String.fromUTF8? ⟨f.toArray⟩

/-- The time of change of a file, in seconds. -/
def modified (m : IO.FS.Metadata) : Nat := m.modified.sec.toNat

/-- `t` with what stands at a location of the disk and all that is in it. Directories are entered
only in person, not by links. -/
partial def readFrom (t : FileTree) (loc : Location) : IO FileTree := do
  let place : IO.FS.DirEntry := ⟨pathOf loc.dropLast, loc.getLast?.getD "."⟩
  let some m ← (some <$> place.path.metadata) <|> pure none | return t
  match m.type with
  | .dir =>
    let own ← place.path.symlinkMetadata
    let mut t := t.put loc .directory
    if own.type matches .dir then
      for child in ← place.path.readDir <|> pure #[] do
        t ← readFrom t (loc ++ [child.fileName])
    return t
  | .file =>
    let some bytes ← (some <$> IO.FS.readBinFile place.path) <|> pure none | return t
    return { t.put loc (.file ⟨bytes.toList, modified m, t.fresh⟩) with fresh := t.fresh + 1 }
  | _ => return t

/-- `t` with what stands at a location, and the directories on the way to it. -/
def read (t : FileTree) (loc : Location) : IO FileTree := do
  let mut t := t
  for n in List.range loc.length do
    let above := loc.take n
    let place : IO.FS.DirEntry := ⟨pathOf above, "."⟩
    let some m ← (some <$> place.path.metadata) <|> pure none | return t
    if m.type matches .dir then
      if above != [] then t := t.put above .directory
    else return t
  readFrom t loc

/-- `t` with what stands at all of `locs`; what lies below one that was read before is not read
again. -/
def readAll (t : FileTree) (locs : List Location) : IO FileTree := do
  let mut t := t
  let mut done : List Location := []
  for loc in locs do
    if !done.any (·.isPrefixOf loc) then
      t ← read t loc
      done := loc :: done
  return t

/-- The disk, brought from one state to another. What is gone is removed from the deepest place up,
what is new is written from the top down. -/
def bring (before after : FileTree) : IO Unit := do
  for e in (before.entries.mergeSort fun a b => b.1.length ≤ a.1.length) do
    match e.2, after.at? e.1 with
    | .file _, some (.file _) => pure ()
    | .file _, _ => IO.FS.removeFile (pathOf e.1)
    | .directory, some .directory => pure ()
    | .directory, _ => IO.FS.removeDir (pathOf e.1)
  for e in (after.entries.mergeSort fun a b => a.1.length ≤ b.1.length) do
    match e.2, before.at? e.1 with
    | .directory, some .directory => pure ()
    | .directory, _ => IO.FS.createDirAll (pathOf e.1)
    | .file f, some (.file g) =>
      if f.data != g.data then IO.FS.writeBinFile (pathOf e.1) ⟨f.data.toArray⟩
    | .file f, _ => IO.FS.writeBinFile (pathOf e.1) ⟨f.data.toArray⟩

/-- The variables of the process. -/
def environment : IO Config.Variables := do
  let some bytes ← (some <$> IO.FS.readBinFile "/proc/self/environ") <|> pure none | return []
  return (fields 0 bytes).filterMap fun line =>
    match line.splitOn "=" with
    | name :: value@(_ :: _) => some (name, "=".intercalate value)
    | _ => none

/-- The home directories of accounts. -/
def accounts : IO (List (String × String)) := do
  let some bytes ← (some <$> IO.FS.readBinFile "/etc/passwd") <|> pure none | return []
  return (fields 10 bytes).filterMap fun line =>
    match line.splitOn ":" with
    | name :: _ :: _ :: _ :: _ :: home :: _ => some (name, home)
    | _ => none

/-- The moment at which the process began. -/
def began : IO (Nat × Moment) := do
  let place : IO.FS.DirEntry := ⟨"/proc/self", "."⟩
  let some m ← (some <$> place.path.metadata) <|> pure none | return (0, Moment.ofSeconds 0 0)
  return (modified m, Moment.ofSeconds (modified m) (m.modified.nsec.toNat / 1000))

/-- What a line of a log begins with. -/
def stamp (m : Moment) : String :=
  { m with microsecond := 0 }.text " " ++ "," ++ padded 3 (m.microsecond / 1000) ++ " "

/-- The texts that may be paths in an argument: all of it, and what stands after an equals sign. -/
def pathsIn (argument : String) : List String :=
  match argument.splitOn "=" with
  | _ :: rest@(_ :: _) => [argument, "=".intercalate rest]
  | _ => [argument]

/-- The paths in the settings of a project. -/
def configured (t : FileTree) (around : Config.Surroundings) (project : Path) : List Path :=
  match (Config.loadSettings t around.variables project true).settings with
  | .error _ => []
  | .ok es =>
    let builder := (Config.Composition.ofSettings project es).builder around.homes
    let places := match builder with
      | .ok b => [b.expander.fragments.root, b.pagesDir, b.outDir]
      | .error _ => []
    let log := match (Config.LogSettings.ofSettings project es).path? around.homes with
      | .ok (some p) => [p]
      | _ => []
    places ++ log

/-- The files that a command may need. -/
def filesFor (args : List String) (around : Config.Surroundings) : IO FileTree := do
  let here := (Path.ofString (← IO.currentDir).toString).locate []
  let named := here :: args.flatMap fun a => (pathsIn a).map fun p => (Path.ofString p).locate here
  let t ← readAll default named
  let more := named.flatMap fun project => configured t around (Path.ofLocation project)
  let t ← readAll t (more.map (·.locate here) |>.filter fun loc =>
    !named.any (·.isPrefixOf loc))
  return t.enter (Path.ofLocation here)

end Disk
end PageComposer

open PageComposer in
/-- The program. -/
def main (args : List String) : IO UInt32 := do
  let around : Config.Surroundings :=
    { «variables» := ← Disk.environment, accounts := ← Disk.accounts }
  let (seconds, moment) ← Disk.began
  let tree ← Disk.filesFor args around
  let work : CommandLine.Work :=
    { tree := tree, around := around, time := seconds, timestamp := moment.text "T"
      logger := { stamp := Disk.stamp moment } }
  let (ended, work) := CommandLine.run work args
  Disk.bring tree work.tree
  (← IO.getStdout).putStr work.printed.out
  (← IO.getStderr).putStr work.printed.err
  match ended with
  | .ok code => return code.toUInt32
  | .error fault =>
    (← IO.getStderr).putStrLn fault.message
    return 1
