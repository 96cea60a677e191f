/-
# Where paths lead

The system follows a path part by part and looks at every directory on the way; a location is found by the
parts alone.  Where the system comes to an end it is at the location (`FileTree.locate_of_find`), and on a
path without `..` it comes there exactly if everything before it is a directory (`FileTree.follow_eq_ok`).
-/

import PageComposer.Files.Tree

namespace PageComposer

/-! ### Names -/

/-- A text that can be the name of an entry. -/
structure IsName (s : String) : Prop where
  nonempty : s ≠ ""
  here : s ≠ "."
  up : s ≠ ".."
  noSlash : '/' ∉ s.toList

instance (s : String) : Decidable (IsName s) :=
  decidable_of_iff (s ≠ "" ∧ s ≠ "." ∧ s ≠ ".." ∧ '/' ∉ s.toList)
    ⟨fun ⟨h₁, h₂, h₃, h₄⟩ => ⟨h₁, h₂, h₃, h₄⟩, fun h => ⟨h.nonempty, h.here, h.up, h.noSlash⟩⟩

/-- A name is no more than one piece. -/
theorem Text.pieces_eq_singleton {separator : Char} {cs : List Char} (h : separator ∉ cs) :
    pieces separator cs = [cs] := by
  induction cs with
  | nil => rfl
  | cons c rest ih =>
    have hc : (c == separator) = false := by
      simpa using fun he : c = separator => h (he ▸ List.mem_cons_self ..)
    rw [pieces, hc, ih fun hm => h (List.mem_cons_of_mem _ hm)]
    rfl

namespace Path

/-- A name is read as one part. -/
theorem ofString_name {name : String} (h : IsName name) : ofString name = ⟨"", [name]⟩ := by
  have hroot : (name.toList.takeWhile (· == '/')).length = 0 := by
    cases hn : name.toList with
    | nil => rfl
    | cons c cs =>
      have : c ≠ '/' := fun hc => h.noSlash (by rw [hn, hc]; exact List.mem_cons_self ..)
      simp [this]
  simp [ofString, rootOf, hroot, Text.split, Text.pieces_eq_singleton h.noSlash, h.nonempty, h.here]

/-- Parts without `..` lead down. -/
theorem foldl_step {parts : List String} (plain : ".." ∉ parts) (start : Location) :
    parts.foldl step start = start ++ parts := by
  induction parts generalizing start with
  | nil => simp
  | cons part rest ih =>
    have hpart : part ≠ ".." := fun h => plain (h ▸ List.mem_cons_self ..)
    rw [List.foldl_cons, ih fun h => plain (List.mem_cons_of_mem _ h)]
    simp [step, hpart]

/-- An absolute path leads to one location from everywhere. -/
theorem locate_of_isAbsolute {p : Path} (h : p.isAbsolute = true) (cwd cwd' : Location) :
    p.locate cwd = p.locate cwd' := by
  simp [locate, h]

/-- The path of a name in a directory. -/
def child (dir : Path) (name : String) : Path := { dir with parts := dir.parts ++ [name] }

@[simp] theorem name_child (dir : Path) (name : String) : (dir.child name).name = name := by
  simp [child, Path.name]

@[simp] theorem isAbsolute_child (dir : Path) (name : String) :
    (dir.child name).isAbsolute = dir.isAbsolute := rfl

/-- A name leads one level down. -/
theorem locate_child {dir : Path} {name : String} (h : name ≠ "..") (cwd : Location) :
    (dir.child name).locate cwd = dir.locate cwd ++ [name] := by
  simp [locate, child, isAbsolute, List.foldl_append, step, h]

/-- A name seen from a directory. -/
theorem join_name (dir : Path) {name : String} (h : IsName name) :
    dir.join (ofString name) = dir.child name := by
  rw [ofString_name h]
  rfl

end Path

namespace FileTree

/-- A tree as a file system holds it: names are names, and each entry stands once, in a directory. -/
structure IsSound (w : FileTree) : Prop where
  names : ∀ x ∈ w.entries, ∀ part ∈ x.1, IsName part
  parents : ∀ loc name e, w.at? (loc ++ [name]) = some e → w.at? loc = some .directory
  once : (w.entries.map (·.1)).Nodup

theorem mem_entries_of_at? {w : FileTree} {loc : Location} {name : String} {e : Entry}
    (h : w.at? (loc ++ [name]) = some e) : (loc ++ [name], e) ∈ w.entries := by
  have hl : w.entries.lookup (loc ++ [name]) = some e := by
    cases loc <;> exact h
  obtain ⟨before, after, hsplit, -⟩ := List.lookup_eq_some_iff.1 hl
  rw [hsplit]
  simp

/-- Whether a tree is sound shows in its entries. -/
theorem isSound_of_entries {w : FileTree}
    (h : ∀ x ∈ w.entries, (∀ part ∈ x.1, IsName part) ∧ w.at? x.1.dropLast = some .directory)
    (once : (w.entries.map (·.1)).Nodup) : w.IsSound where
  names x hx := (h x hx).1
  parents loc name e he := by simpa using (h _ (mem_entries_of_at? he)).2
  once := once

theorem foldl_step_of_follow {w : FileTree} {loc loc' : Location} {parts : List String}
    (h : w.follow loc parts = .ok loc') : parts.foldl Path.step loc = loc' := by
  induction parts generalizing loc with
  | nil => exact Except.ok.inj h
  | cons part rest ih =>
    rw [follow] at h
    split at h
    · cases h
    · cases h
    · rw [List.foldl_cons, Path.step]
      split at h
      · rename_i hup
        rw [if_pos hup]
        exact ih h
      · rename_i hup
        rw [if_neg hup]
        split at h
        · cases h
        · exact ih h

theorem follow_append (w : FileTree) (loc : Location) (parts more : List String) :
    w.follow loc (parts ++ more) = (w.follow loc parts).bind fun loc' => w.follow loc' more := by
  induction parts generalizing loc with
  | nil => rfl
  | cons part rest ih =>
    rw [List.cons_append, follow, follow]
    split
    · rfl
    · rfl
    · split
      · exact ih _
      · split
        · rfl
        · exact ih _

/-- A path leads somewhere if it can be written for the system and every step of it can be made. -/
theorem find_eq_ok_iff {w : FileTree} {p : Path} {loc : Location} :
    w.find p = .ok loc ↔ Text.holds p.text '\x00' = false ∧ p.text.utf8ByteSize ≤ 4095 ∧
      w.follow (if p.isAbsolute then [] else w.here) p.parts = .ok loc := by
  unfold find
  cases Text.holds p.text '\x00' with
  | true => simp
  | false =>
    by_cases hsize : p.text.utf8ByteSize > 4095
    · simp [hsize, Nat.not_le.2 hsize]
    · cases w.follow (if p.isAbsolute then [] else w.here) p.parts <;>
        simp [hsize, Nat.le_of_not_lt hsize]

/-- **Where a path leads is its location.** -/
theorem locate_of_find {w : FileTree} {p : Path} {loc : Location} (h : w.find p = .ok loc) :
    p.locate w.here = loc := foldl_step_of_follow (find_eq_ok_iff.1 h).2.2

theorem at?_of_status {w : FileTree} {p : Path} {e : Entry} (h : w.status p = .ok e) :
    w.at? (p.locate w.here) = some e := by
  unfold status at h
  cases hf : w.find p with
  | error f => rw [hf] at h; cases h
  | ok loc =>
    obtain rfl := locate_of_find hf
    rw [hf] at h
    cases he : w.at? (p.locate w.here) with
    | none => simp [bind, Except.bind, he] at h
    | some e' => simpa [bind, Except.bind, he, pure, Except.pure] using h

/-- What can be wrong on the way along a path. -/
theorem refusal_of_follow {w : FileTree} {loc : Location} {parts : List String} {why : Refusal}
    (h : w.follow loc parts = .error why) :
    why = .notFound ∨ why = .notDirectory ∨ why = .nameTooLong := by
  induction parts generalizing loc with
  | nil => cases h
  | cons part rest ih =>
    rw [follow] at h
    split at h
    · cases h
      exact .inl rfl
    · cases h
      exact .inr (.inl rfl)
    · split at h
      · exact ih h
      · split at h
        · cases h
          exact .inr (.inr rfl)
        · exact ih h

/-- Whether the path or a name in it is longer than the system takes. -/
def IsTooLong (w : FileTree) (p : Path) : Prop :=
  Text.holds p.text '\x00' = false ∧ (4095 < p.text.utf8ByteSize ∨
    w.follow (if p.isAbsolute then [] else w.here) p.parts = .error .nameTooLong)

/-- **Looking up what may be missing fails only where something is too long.** -/
theorem status?_eq_error {w : FileTree} {p : Path} {f : FileFault} :
    w.status? p = .error f ↔ w.IsTooLong p ∧ f = .refused .nameTooLong p.text := by
  unfold status? status find IsTooLong
  cases hnull : Text.holds p.text '\x00' with
  | true => simp [bind, Except.bind]
  | false =>
    by_cases hsize : 4095 < p.text.utf8ByteSize
    · simp [bind, Except.bind, hsize, eq_comm (a := f)]
    · cases hf : w.follow (if p.isAbsolute then [] else w.here) p.parts with
      | error why =>
        rcases refusal_of_follow hf with rfl | rfl | rfl <;>
          simp [bind, Except.bind, hsize, eq_comm (a := f)]
      | ok loc =>
        cases he : w.at? loc <;>
          simp [bind, Except.bind, hsize, he, throw, throwThe, MonadExceptOf.throw, pure, Except.pure]

/-- That something is at a path tells what it is. -/
theorem status?_eq_some {w : FileTree} {p : Path} {e : Entry} :
    w.status? p = .ok (some e) ↔ w.status p = .ok e := by
  unfold status?
  constructor
  · intro h
    split at h <;> simp_all
  · intro h
    rw [h]

end FileTree
end PageComposer
