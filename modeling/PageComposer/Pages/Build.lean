/-
# Building pages

The pages of a project are the `.html` files directly in its pages directory. Building expands each
and writes the result under its own name into the output directory.

| step | ends the build when |
| --- | --- |
| discover the pages and select the named ones | a path cannot be looked up |
| empty the output directory, if that is asked for | it is or holds the pages directory or the root |
| make the output directory | a file is in the way |
| per page: read, expand, write | the page cannot be read or written, a fault ends the expansion |

A named page that there is none of is warned about and left out. A page name is the file name without
its suffix; of two pages of one name the later one counts.
-/

import PageComposer.Expansion.Expand
import PageComposer.Logging.Record

namespace PageComposer

/-- What ends a build. -/
inductive BuildFault where
  /-- Emptying `out` would remove `source`. -/
  | holdsSource (out : Path) (label : String) (source : Path)
  | file (fault : FileFault)
  | page (fault : ReadFault)
  | fragment (fault : FragmentFault)
  deriving Repr, DecidableEq, Inhabited

/-- The words for a fault. -/
def BuildFault.message : BuildFault → String
  | .holdsSource out label source =>
    "Refusing to empty out_dir " ++ out.text ++ ": it contains " ++ label ++ " " ++ source.text
  | .file f => f.message
  | .page f => f.message
  | .fragment f => f.message

/-- A build half done. -/
structure Build where
  tree : FileTree
  /-- The reports, the last one first. -/
  reports : List Report := []
  /-- The log, the last record first. -/
  log : List Logging.Record := []
  fault? : Option BuildFault := none
  deriving Inhabited

/-- What pages are built with. -/
structure PageBuilder where
  expander : Expander
  pagesDir : Path
  outDir : Path
  emptyOutDir : Bool := true
  deriving Repr, DecidableEq, Inhabited

/-- A way of passing records on while a build goes on. -/
abbrev Listener := FileTree → Logging.Record → FileTree

namespace Build

/-- The build with one more record. -/
def note (b : Build) (listen : Listener) (r : Logging.Record) : Build :=
  { b with tree := listen b.tree r, log := r :: b.log }

/-- The build with one more record of its own. -/
def say (b : Build) (listen : Listener) (level : Int) (message : String) : Build :=
  b.note listen ⟨level, "htmlcompose.core.composition.pages", message⟩

/-- The build, ended. -/
def stop (b : Build) (fault : BuildFault) : Build := { b with fault? := some fault }

/-- The build, ended if the files are at fault. -/
def carryOn (b : Build) (r : FileTree × Option FileFault) : Build :=
  { b with tree := r.1, fault? := r.2.map .file }

end Build

namespace PageBuilder

/-- The pages of a directory by their names, in the order of the file names; no pages if there is no
such directory, which is told. -/
def discover (w : FileTree) (dir : Path) :
    Except FileFault (List (String × Path) × Option String) := do
  if ← w.isDirectory dir then
    let names := (w.names (← w.find dir)).filter fun n => n.endsWith ".html"
    let paths := (names.mergeSort fun a b => a ≤ b).map fun n => { dir with parts := dir.parts ++ [n] }
    let files ← paths.filterM fun p => w.isFile p
    return (files.foldl (fun pages p => put (Path.stemOf p.name) p pages) [], none)
  else return ([], some ("Pages directory not found: " ++ dir.text))
where
  /-- `pages` with `path` under `name`, which keeps its place. -/
  put (name : String) (path : Path) : List (String × Path) → List (String × Path)
    | [] => [(name, path)]
    | p :: rest => if p.1 == name then (name, path) :: rest else p :: put name path rest

/-- The pages that are asked for. -/
def select (available : List (String × Path)) : Option (List String) → List (String × Path)
  | none => available
  | some names => names.eraseDups.filterMap fun n => (available.lookup n).map (n, ·)

/-- The names that are asked for in vain. -/
def missing (available : List (String × Path)) (names : List String) : List String :=
  (names.eraseDups.filter fun n => (available.lookup n).isNone).mergeSort fun a b => a ≤ b

/-- Why the output directory must not be emptied. -/
def refusal? (b : PageBuilder) (w : FileTree) : Option BuildFault :=
  let out := b.outDir.resolve w.here
  [("pages_dir", b.pagesDir), ("root", b.expander.fragments.root)].findSome? fun (label, p) =>
    if Text.holds p.text '\x00' then some (.file .nullCharacter)
    else
      let source := p.resolve w.here
      if out.parts.isPrefixOf source.parts then some (.holdsSource out label source) else none

/-- The build with the output directory emptied and made. -/
def prepare (b : PageBuilder) (build : Build) : Build :=
  let emptied :=
    if b.emptyOutDir then
      match build.tree.hasEntry b.outDir with
      | .error f => build.stop (.file f)
      | .ok false => build
      | .ok true =>
        match b.refusal? build.tree with
        | some fault => build.stop fault
        | none => build.carryOn (build.tree.removeTree b.outDir)
    else build
  if emptied.fault?.isSome then emptied
  else emptied.carryOn (emptied.tree.makeDirectories b.outDir)

/-- The build with one more page. -/
def buildPage (b : PageBuilder) (listen : Listener) (time : Nat) (build : Build)
    (page : String × Path) : Build :=
  if build.fault?.isSome then build
  else
    let encoding := b.expander.fragments.encoding
    if Text.holds encoding '\x00' then
      build.stop (.fragment (.nullCharacter "embedded null character"))
    else
      match build.tree.readText page.2 encoding with
      | .error f => build.stop (.page f)
      | .ok cs =>
        let r := b.expander.process build.tree page.2.name (String.ofList cs)
        let build := r.2.log.reverse.foldl (fun build record => build.note listen record) build
        match r.1, r.2.fault? with
        | some html, _ =>
          let target := b.outDir.join (Path.ofString page.2.name)
          let data := ((Text.Encoding.ofName? encoding).map fun e => Text.encode e html).getD []
          match build.tree.write target data time with
          | .error f => build.stop (.file f)
          | .ok w =>
            let report := { r.2.report with output := some target }
            { build with tree := w, reports := report :: build.reports }.say listen 20
              ("Built page " ++ page.1)
        | none, some f => build.stop (.fragment f)
        | none, none => build

/-- A build before its first page, and the pages that it is for. -/
def start (b : PageBuilder) (w : FileTree) (listen : Listener) (names : Option (List String)) :
    Build × List (String × Path) :=
  let begun : Build := { tree := w }
  match discover w b.pagesDir with
  | .error f => (begun.stop (.file f), [])
  | .ok (available, remark) =>
    let told := remark.toList.foldl (fun build m => build.say listen 20 m) begun
    let warned := (missing available (names.getD [])).foldl
      (fun build n => build.say listen 30 ("Page not found: " ++ n)) told
    (b.prepare warned, select available names)

/-- Builds all pages, or those of some names. -/
def build (b : PageBuilder) (w : FileTree) (listen : Listener) (time : Nat)
    (names : Option (List String)) : Build :=
  let s := b.start w listen names
  s.2.foldl (b.buildPage listen time) s.1

end PageBuilder
end PageComposer
