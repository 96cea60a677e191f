/-
# Expansion

A directive is replaced by its fragment, in which the placeholders stand for the content of its slots
and the directives have been performed in turn.

| step | refused when |
| --- | --- |
| resolve the reference to a path | it is none |
| enter the path | it is being expanded already, or the depth is reached |
| load the fragment | it cannot be read, or is no markup |
| fill its placeholders | |
| expand it one level deeper | |

A path is never entered twice on one way down, and each is the path of a file; so there are no more
levels than files, and expansion ends.
-/

import PageComposer.Document.Slots
import PageComposer.Expansion.Directive

namespace PageComposer

/-- What expansions are held to. -/
structure Expander where
  fragments : Fragments
  /-- How deep fragments may nest. -/
  maxDepth : Int := 10
  deriving Repr, DecidableEq, Inhabited

namespace FileTree

/-- The number of files that are not among some paths. -/
def unvisited (w : FileTree) (stack : List Path) : Nat :=
  (w.filePaths.filter fun p => !stack.contains p).length

theorem unvisited_lt {w : FileTree} {stack : List Path} {path : Path} (hfile : path ∈ w.filePaths)
    (hnew : stack.contains path = false) : w.unvisited (stack ++ [path]) < w.unvisited stack := by
  have hsub : (w.filePaths.filter fun p => !(stack ++ [path]).contains p) =
      (w.filePaths.filter fun p => !stack.contains p).filter fun p => !(p == path) := by
    rw [List.filter_filter]
    apply List.filter_congr
    intro p _
    by_cases hp : p = path <;> simp [hp]
  unfold unvisited
  rw [hsub]
  refine List.length_filter_lt_length_iff_exists.2 ⟨path, ?_, by simp⟩
  simp only [List.mem_filter]
  exact ⟨hfile, by simpa using hnew⟩

end FileTree

namespace Expander

variable (x : Expander) (w : FileTree)

/-- Attempts a directive with the fragments of `stack` around it; `fill` substitutes its slots in a
fragment, `descend` expands a fragment that is entered. -/
def attempt (fill : SlotMap → List Content → Filled) (stack : List Path)
    (descend : (path : Path) → path ∈ w.filePaths → stack.contains path = false → Run →
      List Content → List Content × Run) : Attempt := fun src slots run =>
  if run.isOver then (.aborted, run)
  else
    match hpath : x.fragments.resolve w src with
    | .error f => (.aborted, run.abort f)
    | .ok path =>
      if hnew : stack.contains path then
        let chain := " -> ".intercalate ((stack ++ [path]).map Path.text)
        (.failed, run.fail s!"Circular include detected: {chain}")
      else if (stack.length : Int) ≥ x.maxDepth then
        (.failed, run.fail
          (s!"Include depth {stack.length + 1} exceeds max_depth={x.maxDepth}: " ++ path.text))
      else
        match hread : x.fragments.readPath w path with
        | .error (.unreadable path reason) =>
          (.failed, run.fail (FragmentFault.unreadable path reason).message)
        | .error f => (.aborted, run.abort f)
        | .ok cs =>
          let load : Load := ⟨stack, src, path, slots, String.ofList cs⟩
          let run := run.load load
          match Markup.parse load.source with
          | .error f => (.aborted, run.abort (.markup f))
          | .ok items =>
            let filled := fill slots items
            let r := descend path (Fragments.mem_filePaths_of_readPath hpath hread)
              (by simpa using hnew) (run.resolved filled.resolved) filled.content
            if r.2.isOver then (.aborted, r.2) else (.resolved r.1, r.2.included src)

/-- Expands a content list that stands in the fragments of `stack`. -/
def expand (stack : List Path) (run : Run) (items : List Content) : List Content × Run :=
  let announced := run.announce items
  Attempt.perform
    (attempt x w SlotMap.fill stack fun path _hfile _hnew run items =>
      expand (stack ++ [path]) run items)
    announced.2 announced.1
termination_by w.unvisited stack
decreasing_by
  exact FileTree.unvisited_lt _hfile _hnew

/-- The markup of a document after `expand`, unless a fault ended that. -/
def processBy (expand : Run → List Content → List Content × Run) (document markup : String) :
    Option String × Run :=
  let run : Run := { report := { document := document } }
  match Markup.parse markup with
  | .error f => (none, run.abort (.markup f))
  | .ok items =>
    let r := expand run items
    if r.2.isOver then (none, r.2) else (some (Markup.render r.1), r.2)

/-- The markup of a document after expansion, unless a fault ended it. -/
def process (document markup : String) : Option String × Run :=
  processBy (expand x w []) document markup

end Expander
end PageComposer
