/-
# Paths

A path is a root and parts. Reading one drops empty parts and single points and keeps `..`.

| text | root | parts |
| --- | --- | --- |
| `a//b/./c/` | none | `a`, `b`, `c` |
| `/a/../b` | `/` | `a`, `..`, `b` |
| `//a` | `//` | `a` |
| `///a` | `/` | `a` |
| empty | none | none; written `.` |

A location is where an absolute path leads when each `..` takes back the part before it: the parts
below the top directory.
-/

import PageComposer.Text.Class

namespace PageComposer

/-- A place in the file system: the names on the way from the top directory. -/
abbrev Location := List String

/-- A path as it is written. -/
structure Path where
  /-- The slashes it begins with: none, one or two. -/
  root : String
  /-- The names between slashes, without empty ones and points. -/
  parts : List String
  deriving Repr, DecidableEq, Inhabited

namespace Path

/-- The slashes that a text begins with, as a root. -/
def rootOf (cs : List Char) : String :=
  match (cs.takeWhile (· == '/')).length with
  | 0 => ""
  | 2 => "//"
  | _ => "/"

/-- A path as it is read. -/
def ofString (s : String) : Path where
  root := rootOf s.toList
  parts := (Text.split '/' s).filter fun p => !(p == "" || p == ".")

/-- Whether the path begins at the top directory. -/
def isAbsolute (p : Path) : Bool := p.root != ""

/-- The path as it is written. -/
def text (p : Path) : String :=
  if p.root == "" && p.parts.isEmpty then "." else p.root ++ "/".intercalate p.parts

/-- `q` seen from `p`; an absolute `q` stands alone. -/
def join (p q : Path) : Path :=
  if q.isAbsolute then q else { p with parts := p.parts ++ q.parts }

/-- The path without its last part. -/
def parent (p : Path) : Path := { p with parts := p.parts.dropLast }

/-- The last part. -/
def name (p : Path) : String := p.parts.getLast?.getD ""

/-- A name without its last suffix: what stands before the last point, if that is neither the first
nor the last character. -/
def stemOf (name : String) : String :=
  let cs := name.toList
  let suffix := cs.reverse.takeWhile (· != '.')
  let n := cs.length - suffix.length
  if n ≤ 1 || suffix.isEmpty then name else String.ofList (cs.take (n - 1))

/-- One more part on the way from the top directory. -/
def step (loc : Location) (part : String) : Location :=
  if part == ".." then loc.dropLast else loc ++ [part]

/-- The location of a path seen from the location `cwd`. -/
def locate (cwd : Location) (p : Path) : Location :=
  p.parts.foldl step (if p.isAbsolute then [] else cwd)

/-- The path of a location. -/
def ofLocation (loc : Location) : Path := ⟨"/", loc⟩

/-- The path without detours: absolute, and without `..`. -/
def resolve (cwd : Location) (p : Path) : Path := ofLocation (p.locate cwd)

/-- Where every part is a name, the parts are the location. -/
theorem locate_ofLocation {loc : Location} (h : ∀ part ∈ loc, part ≠ "..") (cwd : Location) :
    (ofLocation loc).locate cwd = loc := by
  have go : ∀ (acc : Location) (ps : List String), (∀ part ∈ ps, part ≠ "..") →
      ps.foldl step acc = acc ++ ps := by
    intro acc ps
    induction ps generalizing acc with
    | nil => intro _; simp
    | cons p ps ih =>
      intro hp
      rw [List.foldl_cons, ih _ fun q hq => hp q (List.mem_cons_of_mem _ hq)]
      have : p ≠ ".." := hp p (by simp)
      simp [step, this]
  simpa [locate, ofLocation, isAbsolute] using go [] loc h

/-- A location never holds `..` where the directory it is seen from does not. -/
theorem mem_locate {cwd : Location} (hc : ∀ part ∈ cwd, part ≠ "..") (p : Path) :
    ∀ part ∈ p.locate cwd, part ≠ ".." := by
  have go : ∀ (acc : Location) (ps : List String), (∀ part ∈ acc, part ≠ "..") →
      ∀ part ∈ ps.foldl step acc, part ≠ ".." := by
    intro acc ps
    induction ps generalizing acc with
    | nil => exact id
    | cons q ps ih =>
      intro ha
      refine ih _ fun part hm => ?_
      unfold step at hm
      split at hm
      · exact ha part ((List.dropLast_sublist acc).subset hm)
      · rename_i hq
        rcases List.mem_append.1 hm with h | h
        · exact ha part h
        · rw [List.mem_singleton.1 h]; simpa using hq
  unfold locate
  split
  · exact go [] _ (by simp)
  · exact go cwd _ hc

end Path
end PageComposer
