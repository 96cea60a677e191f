/-
# Null characters in paths

A path that holds a null character leads nowhere (`Path.HoldsNull`), and it is the only kind of path that files
are at fault for in this way: each access that ends in this fault was asked for such a path.  What is made of
paths holds a null character only where one of them does:

| made | of |
| --- | --- |
| `p.resolve here` | `p` and the current directory |
| `p.join q` | `p` and `q` |
| `p.parent`, the path of `p.name` | `p` |
-/

import PageComposer.Proofs.Files.Changes

namespace PageComposer

theorem mem_of_mem_intercalate {α : Type} {sep : List α} {ls : List (List α)} {a : α}
    (h : a ∈ sep.intercalate ls) : a ∈ sep ∨ ∃ l ∈ ls, a ∈ l := by
  induction ls with
  | nil => simp at h
  | cons l ls ih =>
    cases ls with
    | nil => exact .inr ⟨l, by simp, by simpa using h⟩
    | cons next ls =>
      rw [List.intercalate_cons_cons, List.mem_append, List.mem_append] at h
      obtain (h | h) | h := h
      · exact .inr ⟨l, by simp, h⟩
      · exact .inl h
      · exact (ih h).imp id fun ⟨m, hm, ha⟩ => ⟨m, List.mem_cons_of_mem _ hm, ha⟩

namespace Path

/-- A path that holds a null character. -/
def HoldsNull (p : Path) : Prop := Text.holds p.text '\x00' = true

end Path

namespace FileTree

variable {w : FileTree} {p : Path}

theorem holdsNull_of_find (h : w.find p = .error .nullCharacter) : p.HoldsNull := by
  unfold find at h
  split at h
  · assumption
  · split at h
    · cases h
    · split at h <;> cases h

/-- What is at a path is refused for a null character only where the path holds one. -/
theorem holdsNull_of_status (h : w.status p = .error .nullCharacter) : p.HoldsNull := by
  unfold status at h
  cases hf : w.find p with
  | error f =>
    rw [hf] at h
    obtain rfl := Except.error.inj h
    exact holdsNull_of_find hf
  | ok loc =>
    simp only [hf, bind, Except.bind] at h
    split at h <;> cases h

theorem holdsNull_of_openFile (h : w.openFile p = .error .nullCharacter) : p.HoldsNull := by
  unfold openFile at h
  cases hs : w.status p with
  | error f =>
    rw [hs] at h
    obtain rfl := Except.error.inj h
    exact holdsNull_of_status hs
  | ok e => cases e <;> rw [hs] at h <;> cases h

/-- A file that is there has a path without null characters. -/
theorem not_holdsNull_of_status {e : Entry} (h : w.status p = .ok e) : ¬ p.HoldsNull := by
  intro hnull
  have hnull : Text.holds p.text '\x00' = true := hnull
  rw [status, find, if_pos hnull] at h
  cases h

end FileTree
end PageComposer
