/-
# Files and their identities

A file that is open is known by its identity.  Where the identities of a tree are distinct (`FileTree.IsDistinct`), what
is written to an identity comes to one location, and they stay distinct as long as new ones are given out.

| operation | the file at a location |
| --- | --- |
| `makeDirectories` | stays as it is |
| `openToAppend` | stays as it is, or is new and empty; its identity is the one that is told (`opened_of_openToAppend`) |
| `append` | gets the data if it has the identity (`held_append`) |
-/

import PageComposer.Proofs.Files.Changes

namespace PageComposer
namespace FileTree

/-- The data of the file at a location, none where no file is. -/
def held (w : FileTree) (loc : Location) : List UInt8 :=
  match w.at? loc with
  | some (.file f) => f.data
  | _ => []

/-- No two locations have files of one identity, and none has an identity that is still to be given out. -/
structure IsDistinct (w : FileTree) : Prop where
  known : ∀ loc f, w.at? loc = some (.file f) → f.identity < w.fresh
  one : ∀ loc loc' f g, w.at? loc = some (.file f) → w.at? loc' = some (.file g) → f.identity = g.identity → loc = loc'

/-- `w'` has the file at `loc` that `w` has, or a new and empty one where `w` has none. -/
structure Spares (loc : Location) (w w' : FileTree) : Prop where
  fresh : w.fresh ≤ w'.fresh
  kept : ∀ f, w.at? loc = some (.file f) → w'.at? loc = some (.file f)
  new : ∀ f, w'.at? loc = some (.file f) → w.at? loc = some (.file f) ∨
    w.held loc = [] ∧ f.data = [] ∧ w.fresh ≤ f.identity

variable {w w' w'' : FileTree} {loc : Location}

theorem held_of_file {f : File} (h : w.at? loc = some (.file f)) : w.held loc = f.data := by
  rw [held, h]

theorem held_of_not_file (h : ∀ f, w.at? loc ≠ some (.file f)) : w.held loc = [] := by
  unfold held
  split
  · exact absurd ‹_› (h _)
  · rfl

theorem Spares.refl (loc : Location) (w : FileTree) : Spares loc w w :=
  ⟨Nat.le_refl _, fun _ => id, fun _ => .inl⟩

theorem Spares.trans (h : Spares loc w w') (h' : Spares loc w' w'') : Spares loc w w'' where
  fresh := Nat.le_trans h.fresh h'.fresh
  kept f hf := h'.kept f (h.kept f hf)
  new f hf := by
    obtain hf | ⟨hheld, hdata, hidentity⟩ := h'.new f hf
    · exact h.new f hf
    · refine .inr ⟨?_, hdata, Nat.le_trans h.fresh hidentity⟩
      cases hw : w.at? loc with
      | none => rw [held, hw]
      | some e =>
        cases e with
        | directory => rw [held, hw]
        | file g => rw [held_of_file hw, ← held_of_file (h.kept g hw), hheld]

/-- Then the data is the same. -/
theorem Spares.held (h : Spares loc w w') : w'.held loc = w.held loc := by
  by_cases hfile : ∃ f, w'.at? loc = some (.file f)
  · obtain ⟨f, hf⟩ := hfile
    obtain hw | ⟨hheld, hdata, -⟩ := h.new f hf
    · rw [held_of_file hf, held_of_file hw]
    · rw [held_of_file hf, hheld, hdata]
  · rw [held_of_not_file fun f hf => hfile ⟨f, hf⟩, held_of_not_file fun f hf => hfile ⟨f, h.kept f hf⟩]

/-- Whatever is done elsewhere spares a location. -/
theorem Spares.of_at? (hat : w'.at? loc = w.at? loc) (hfresh : w.fresh ≤ w'.fresh) : Spares loc w w' :=
  ⟨hfresh, fun _ h => hat.trans h, fun _ h => .inl (hat ▸ h)⟩

/-! ### Making directories -/

theorem fresh_of_makeDirectory {p : Path} (h : w.makeDirectory p = .ok w') : w'.fresh = w.fresh := by
  unfold makeDirectory at h
  cases hf : w.find p with
  | error f =>
    rw [hf] at h
    cases h
  | ok loc =>
    rw [hf] at h
    cases he : w.at? loc with
    | some e => simp [bind, Except.bind, he, throw, throwThe, MonadExceptOf.throw] at h
    | none =>
      simp only [bind, Except.bind, he, pure, Except.pure, Except.ok.injEq] at h
      rw [← h]
      rfl

/-- A directory has no identity. -/
theorem fresh_makeDirectoriesFrom (w : FileTree) (p : Path) (n : Nat) :
    (w.makeDirectoriesFrom p n).1.fresh = w.fresh := by
  induction n generalizing p with
  | zero =>
    unfold makeDirectoriesFrom
    split
    · exact fresh_of_makeDirectory ‹_›
    · rfl
    · rfl
    · rfl
  | succ n ih =>
    unfold makeDirectoriesFrom
    split
    · exact fresh_of_makeDirectory ‹_›
    · rfl
    · dsimp only
      split
      · rfl
      · have hparent := ih p.parent
        split
        · rename_i hr
          rw [hr] at hparent
          exact hparent
        · rename_i hr
          rw [hr] at hparent
          split
          · exact (fresh_of_makeDirectory ‹_›).trans hparent
          · exact hparent
          · exact hparent
    · rfl

theorem Grown.file_iff {way : Location → Prop} (h : w.Grown way w') (loc : Location) (f : File) :
    w'.at? loc = some (.file f) ↔ w.at? loc = some (.file f) := by
  obtain heq | ⟨-, hnone, hdir⟩ := h.at? loc
  · rw [heq]
  · rw [hnone, hdir]
    exact ⟨nofun, nofun⟩

/-- Making directories spares every file. -/
theorem spares_makeDirectories (w : FileTree) (p : Path) (loc : Location) :
    Spares loc w (w.makeDirectories p).1 := by
  have hfile := (w.grown_of_makeDirectoriesFrom p p.parts.length).1.file_iff
  have hfresh : (w.makeDirectories p).1.fresh = w.fresh := fresh_makeDirectoriesFrom w p _
  exact ⟨Nat.le_of_eq hfresh.symm, fun f => (hfile loc f).2, fun f h => .inl ((hfile loc f).1 h)⟩

theorem IsDistinct.makeDirectories (h : w.IsDistinct) (p : Path) : (w.makeDirectories p).1.IsDistinct := by
  have hfile := (w.grown_of_makeDirectoriesFrom p p.parts.length).1.file_iff
  have hfresh : (w.makeDirectories p).1.fresh = w.fresh := fresh_makeDirectoriesFrom w p _
  constructor
  · intro loc f hf
    rw [hfresh]
    exact h.known loc f ((hfile loc f).1 hf)
  · intro loc loc' f g hf hg
    exact h.one loc loc' f g ((hfile loc f).1 hf) ((hfile loc' g).1 hg)

/-! ### Opening a file -/

/-- `w'` has a file of the identity `i` at `there`, the one that `w` has or a new one. -/
structure Opened (there : Location) (w : FileTree) (i : Nat) (w' : FileTree) : Prop where
  file : ∃ f : File, w'.at? there = some (.file f) ∧ f.identity = i
  spares : ∀ loc, Spares loc w w'
  distinct : w.IsDistinct → w'.IsDistinct

/-- A new file of the next identity, where nothing was. -/
theorem opened_put {there : Location} (hnone : w.at? there = none) (time : Nat) :
    Opened there w w.fresh { w.put there (.file ⟨[], time, w.fresh⟩) with fresh := w.fresh + 1 } := by
  have hne : there ≠ [] := fun hnil => by
    rw [hnil] at hnone
    cases hnone
  have hput := at?_put w hne (.file ⟨[], time, w.fresh⟩)
  -- a file is the new one, or one that was there
  have hfile : ∀ loc f, (w.put there (.file ⟨[], time, w.fresh⟩)).at? loc = some (.file f) →
      loc = there ∧ f = ⟨[], time, w.fresh⟩ ∨ loc ≠ there ∧ w.at? loc = some (.file f) := by
    intro loc f hloc
    rw [hput] at hloc
    split at hloc
    · cases hloc
      exact .inl ⟨‹_›, rfl⟩
    · exact .inr ⟨‹_›, hloc⟩
  refine ⟨⟨_, (hput there).trans (if_pos rfl), rfl⟩, fun loc => ⟨Nat.le_succ _, fun f hf => ?_, fun f hf => ?_⟩,
    fun hdistinct => ⟨fun loc f hf => ?_, fun loc loc' f g hf hg hsame => ?_⟩⟩
  · refine (hput loc).trans ((if_neg ?_).trans hf)
    rintro rfl
    rw [hnone] at hf
    cases hf
  · obtain ⟨rfl, rfl⟩ | ⟨-, hold⟩ := hfile loc f hf
    · exact .inr ⟨by rw [held, hnone], rfl, Nat.le_refl _⟩
    · exact .inl hold
  · obtain ⟨-, rfl⟩ | ⟨-, hold⟩ := hfile loc f hf
    · exact Nat.lt_succ_self _
    · exact Nat.lt_succ_of_lt (hdistinct.known loc f hold)
  · obtain ⟨rfl, rfl⟩ | ⟨-, hold⟩ := hfile loc f hf <;> obtain ⟨rfl, rfl⟩ | ⟨-, hold'⟩ := hfile loc' g hg
    · rfl
    · exact absurd hsame.symm (Nat.ne_of_lt (hdistinct.known loc' g hold'))
    · exact absurd hsame (Nat.ne_of_lt (hdistinct.known loc f hold))
    · exact hdistinct.one loc loc' f g hold hold' hsame

theorem opened_of_openToAppend {p : Path} {time i : Nat} (h : w.openToAppend p time = .ok (w', i)) :
    Opened (p.locate w.here) w i w' := by
  unfold openToAppend at h
  cases hf : w.find p with
  | error f =>
    rw [hf] at h
    cases h
  | ok there =>
    obtain rfl := locate_of_find hf
    rw [hf] at h
    generalize p.locate w.here = there at h ⊢
    cases he : w.at? there with
    | none =>
      simp only [bind, Except.bind, he, pure, Except.pure, Except.ok.injEq, Prod.mk.injEq] at h
      obtain ⟨rfl, rfl⟩ := h
      exact opened_put he time
    | some e =>
      cases e with
      | directory => simp [bind, Except.bind, he, throw, throwThe, MonadExceptOf.throw] at h
      | file f =>
        simp only [bind, Except.bind, he, pure, Except.pure, Except.ok.injEq, Prod.mk.injEq] at h
        obtain ⟨rfl, rfl⟩ := h
        exact ⟨⟨f, he, rfl⟩, fun loc => .refl loc w, id⟩

/-! ### Writing to an identity -/

/-- An entry when data has been written to an identity. -/
def appended (i : Nat) (data : List UInt8) : Entry → Entry
  | .file f => .file (if f.identity = i then { f with data := f.data ++ data } else f)
  | .directory => .directory

theorem entries_append (w : FileTree) (i : Nat) (data : List UInt8) :
    (w.append i data).entries = w.entries.map fun x => (x.1, appended i data x.2) := by
  refine List.map_congr_left fun x _ => ?_
  obtain ⟨k, f | _⟩ := x
  · by_cases hi : f.identity = i <;> simp [appended, hi]
  · rfl

theorem at?_append (w : FileTree) (i : Nat) (data : List UInt8) (loc : Location) :
    (w.append i data).at? loc = (w.at? loc).map (appended i data) := by
  cases loc with
  | nil => rfl
  | cons part rest =>
    show (w.append i data).entries.lookup _ = (w.entries.lookup _).map _
    rw [entries_append]
    induction w.entries with
    | nil => rfl
    | cons x es ih =>
      rw [List.map_cons, List.lookup_cons, List.lookup_cons, ih]
      split <;> rfl

/-- The files when data has been written to an identity. -/
theorem file_of_append {i : Nat} {data : List UInt8} {f : File} (h : (w.append i data).at? loc = some (.file f)) :
    ∃ g, w.at? loc = some (.file g) ∧ g.identity = f.identity := by
  rw [at?_append] at h
  obtain ⟨e, he, happ⟩ := Option.map_eq_some_iff.1 h
  cases e with
  | directory => cases happ
  | file g =>
    refine ⟨g, he, ?_⟩
    obtain rfl := Entry.file.inj happ
    split <;> rfl

theorem IsDistinct.append (h : w.IsDistinct) (i : Nat) (data : List UInt8) : (w.append i data).IsDistinct := by
  constructor
  · intro loc f hf
    obtain ⟨g, hg, hsame⟩ := file_of_append hf
    exact hsame ▸ h.known loc g hg
  · intro loc loc' f f' hf hf' hsame
    obtain ⟨g, hg, hg'⟩ := file_of_append hf
    obtain ⟨k, hk, hk'⟩ := file_of_append hf'
    exact h.one loc loc' g k hg hk (by rw [hg', hk', hsame])

/-- What is written to the identity of a file comes to its end. -/
theorem held_append {f : File} (h : w.at? loc = some (.file f)) (data : List UInt8) :
    (w.append f.identity data).held loc = w.held loc ++ data := by
  have happ : (w.append f.identity data).at? loc = some (.file { f with data := f.data ++ data }) := by
    rw [at?_append, h]
    simp [appended]
  rw [held_of_file happ, held_of_file h]

/-- What is written to another identity does not. -/
theorem at?_append_of_ne {i : Nat} (h : ∀ f, w.at? loc = some (.file f) → f.identity ≠ i) (data : List UInt8) :
    (w.append i data).at? loc = w.at? loc := by
  rw [at?_append]
  cases hw : w.at? loc with
  | none => rfl
  | some e =>
    cases e with
    | directory => rfl
    | file f => simp [appended, h f hw]

end FileTree
end PageComposer
