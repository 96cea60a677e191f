/-
# Home directories

| first part of a relative path | stands for |
| --- | --- |
| `~` | the home of the user |
| `~name` | the home of the account of that name |
| anything else | itself |

A path whose home is not known cannot be used.
-/

import PageComposer.Files.Path

namespace PageComposer

/-- The home directories that are known. -/
structure Homes where
  /-- The home of the user. -/
  own : String
  /-- The homes of accounts by their names. -/
  accounts : List (String × String) := []
  deriving Repr, DecidableEq, Inhabited

namespace Homes

/-- A home directory as it stands before the rest of a path: without slashes at its end. -/
def trimmed (home : String) : String :=
  let cs := (home.toList.reverse.dropWhile (· == '/')).reverse
  if cs.isEmpty then "/" else String.ofList cs

/-- What a first part that begins with `~` stands for. -/
def named? (h : Homes) (part : String) : Option String :=
  if part == "~" then some (trimmed h.own)
  else (h.accounts.lookup (String.ofList (part.toList.drop 1))).map trimmed

/-- A path with the home directory that it begins with. -/
def expand? (h : Homes) (p : Path) : Option Path :=
  match p.isAbsolute, p.parts with
  | false, part :: rest =>
    if part.startsWith "~" then
      match h.named? part with
      | some home =>
        if home.startsWith "~" then none
        else
          let base := Path.ofString home
          some { base with parts := base.parts ++ rest }
      | none => none
    else some p
  | _, _ => some p

theorem expand?_absolute (h : Homes) {p : Path} (hp : p.isAbsolute = true) :
    h.expand? p = some p := by
  simp [expand?, hp]

end Homes
end PageComposer
