/-
# What changes in the tree of files

What stands at each location after an operation, in terms of what stood there before.

| operation | changes |
| --- | --- |
| `write` | the location of the path: a file with the data is there (`Written`) |
| `makeDirectories` | locations on the way where nothing was: directories are there (`Grown`) |
| `removeTree` | locations below that of the path, and the directory there: nothing is there |
-/

import PageComposer.Proofs.Files.Lookup

namespace PageComposer
namespace FileTree

@[simp] theorem at?_nil (w : FileTree) : w.at? [] = some .directory := rfl

theorem at?_eq_lookup (w : FileTree) {loc : Location} (h : loc ≠ []) :
    w.at? loc = w.entries.lookup loc := by
  cases loc with
  | nil => exact absurd rfl h
  | cons a as => rfl

theorem lookup_putEntry (loc loc' : Location) (e : Entry) (es : List (Location × Entry)) :
    (putEntry loc e es).lookup loc' = if loc' = loc then some e else es.lookup loc' := by
  induction es with
  | nil =>
    by_cases h : loc' = loc
    · simp [putEntry, h]
    · have : (loc' == loc) = false := by simpa using h
      simp [putEntry, List.lookup_cons, this, h]
  | cons x rest ih =>
    obtain ⟨k, v⟩ := x
    rw [putEntry]
    by_cases hk : k = loc
    · subst hk
      by_cases h : loc' = k
      · simp [h]
      · have : (loc' == k) = false := by simpa using h
        simp [List.lookup_cons, this, h]
    · have hk' : (k == loc) = false := by simpa using hk
      simp only [hk', Bool.false_eq_true, if_false, List.lookup_cons, ih]
      by_cases h : loc' = loc
      · subst h
        have : (loc' == k) = false := by simpa using Ne.symm hk
        simp [this]
      · simp [h]

theorem at?_put (w : FileTree) {loc : Location} (hloc : loc ≠ []) (e : Entry) (loc' : Location) :
    (w.put loc e).at? loc' = if loc' = loc then some e else w.at? loc' := by
  cases loc' with
  | nil => simp [hloc.symm]
  | cons a as => exact lookup_putEntry loc (a :: as) e w.entries

theorem lookup_filter (keep : Location → Bool) (loc : Location) (es : List (Location × Entry)) :
    (es.filter fun x => keep x.1).lookup loc = if keep loc then es.lookup loc else none := by
  induction es with
  | nil => simp
  | cons x rest ih =>
    obtain ⟨k, v⟩ := x
    by_cases h : loc = k
    · subst h
      by_cases hk : keep loc <;> simp [hk, ih]
    · have : (loc == k) = false := by simpa using h
      by_cases hk : keep k <;> simp [hk, List.lookup_cons, this, ih]

theorem at?_filter (w : FileTree) (keep : Location → Bool) {loc : Location} (hloc : loc ≠ []) :
    ({ w with entries := w.entries.filter fun x => keep x.1 } : FileTree).at? loc =
      if keep loc then w.at? loc else none := by
  rw [at?_eq_lookup _ hloc, at?_eq_lookup _ hloc]
  exact lookup_filter keep loc w.entries

/-! ### Writing -/

/-- `w'` is `w` with a file that holds `data` at `loc`, where no directory was. -/
structure Written (w : FileTree) (loc : Location) (data : List UInt8) (w' : FileTree) : Prop where
  here : w'.here = w.here
  free : w.at? loc ≠ some .directory
  there : ∃ f : File, f.data = data ∧ w'.at? loc = some (.file f)
  others : ∀ loc', loc' ≠ loc → w'.at? loc' = w.at? loc'

theorem written_of_write {w w' : FileTree} {p : Path} {data : List UInt8} {time : Nat}
    (h : w.write p data time = .ok w') : Written w (p.locate w.here) data w' := by
  unfold write at h
  cases hf : w.find p with
  | error f => rw [hf] at h; cases h
  | ok loc =>
    obtain rfl := locate_of_find hf
    rw [hf] at h
    have hne : w.at? (p.locate w.here) ≠ some .directory → p.locate w.here ≠ [] := fun hd hnil => by
      rw [hnil] at hd
      exact hd rfl
    cases he : w.at? (p.locate w.here) with
    | none =>
      simp only [bind, Except.bind, he, pure, Except.pure, Except.ok.injEq] at h
      obtain rfl := h
      have hd : w.at? (p.locate w.here) ≠ some .directory := by simp [he]
      exact ⟨rfl, hd, ⟨_, rfl, (at?_put w (hne hd) _ _).trans (if_pos rfl)⟩,
        fun loc' hl => (at?_put w (hne hd) _ _).trans (if_neg hl)⟩
    | some e =>
      cases e with
      | directory => simp [bind, Except.bind, he, throw, throwThe, MonadExceptOf.throw] at h
      | file f =>
        simp only [bind, Except.bind, he, pure, Except.pure, Except.ok.injEq] at h
        obtain rfl := h
        have hd : w.at? (p.locate w.here) ≠ some .directory := by simp [he]
        exact ⟨rfl, hd, ⟨_, rfl, (at?_put w (hne hd) _ _).trans (if_pos rfl)⟩,
          fun loc' hl => (at?_put w (hne hd) _ _).trans (if_neg hl)⟩

/-! ### Making directories -/

/-- `w'` is `w` with more directories, all of them on `way`. -/
structure Grown (w : FileTree) (way : Location → Prop) (w' : FileTree) : Prop where
  here : w'.here = w.here
  at? : ∀ loc, w'.at? loc = w.at? loc ∨
    way loc ∧ w.at? loc = none ∧ w'.at? loc = some .directory

theorem Grown.refl (w : FileTree) (way : Location → Prop) : w.Grown way w := ⟨rfl, fun _ => .inl rfl⟩

theorem Grown.trans {a b c : FileTree} {way : Location → Prop} (h₁ : a.Grown way b) (h₂ : b.Grown way c) :
    a.Grown way c where
  here := h₂.here.trans h₁.here
  at? loc := by
    rcases h₂.at? loc with h | ⟨hway, hnone, hdir⟩
    · rw [h]
      exact h₁.at? loc
    · rcases h₁.at? loc with h | ⟨-, -, h⟩
      · exact .inr ⟨hway, h ▸ hnone, hdir⟩
      · rw [h] at hnone
        cases hnone

theorem Grown.mono {w w' : FileTree} {way way' : Location → Prop} (h : w.Grown way w')
    (hway : ∀ loc, way loc → way' loc) : w.Grown way' w' :=
  ⟨h.here, fun loc => (h.at? loc).imp_right fun ⟨hl, rest⟩ => ⟨hway loc hl, rest⟩⟩

/-- What is there stays there. -/
theorem Grown.at?_of_some {w w' : FileTree} {way : Location → Prop} (h : w.Grown way w') {loc : Location}
    {e : Entry} (he : w.at? loc = some e) : w'.at? loc = some e := by
  rcases h.at? loc with hl | ⟨-, hnone, -⟩
  · rw [hl, he]
  · rw [he] at hnone
    cases hnone

/-- The locations on the way along a path that is seen from `cwd`. -/
def IsOnWay (cwd : Location) (p : Path) (loc : Location) : Prop :=
  ∃ n, loc = ({ p with parts := p.parts.take n } : Path).locate cwd

theorem isOnWay_self (cwd : Location) (p : Path) : IsOnWay cwd p (p.locate cwd) :=
  ⟨p.parts.length, by rw [List.take_length]⟩

theorem isOnWay_of_parent {cwd : Location} {p : Path} {loc : Location} (h : IsOnWay cwd p.parent loc) :
    IsOnWay cwd p loc := by
  obtain ⟨n, rfl⟩ := h
  exact ⟨min n (p.parts.length - 1), by
    simp only [Path.parent, List.dropLast_eq_take, List.take_take]⟩

/-- On the way along a path without `..` one comes nearer with each part. -/
theorem prefix_of_isOnWay {cwd : Location} {p : Path} {loc : Location} (plain : ".." ∉ p.parts)
    (h : IsOnWay cwd p loc) : loc <+: p.locate cwd := by
  obtain ⟨n, rfl⟩ := h
  have hroot : ({ p with parts := p.parts.take n } : Path).isAbsolute = p.isAbsolute := rfl
  rw [Path.locate, Path.locate, hroot, Path.foldl_step plain,
    Path.foldl_step fun h => plain (List.mem_of_mem_take h)]
  exact (List.prefix_append_right_inj _).2 (List.take_prefix n p.parts)

theorem grown_of_makeDirectory {w w' : FileTree} {p : Path} (h : w.makeDirectory p = .ok w') :
    w.Grown (IsOnWay w.here p) w' ∧ w'.at? (p.locate w.here) = some .directory := by
  unfold makeDirectory at h
  cases hf : w.find p with
  | error f => rw [hf] at h; cases h
  | ok loc =>
    obtain rfl := locate_of_find hf
    rw [hf] at h
    cases he : w.at? (p.locate w.here) with
    | some e => simp [bind, Except.bind, he, throw, throwThe, MonadExceptOf.throw] at h
    | none =>
      simp only [bind, Except.bind, he, pure, Except.pure, Except.ok.injEq] at h
      obtain rfl := h
      have hne : p.locate w.here ≠ [] := fun hnil => by
        rw [hnil] at he
        cases he
      have hput := at?_put w hne .directory
      refine ⟨⟨rfl, fun loc => ?_⟩, (hput _).trans (if_pos rfl)⟩
      rw [hput]
      split
      · rename_i hl
        exact .inr ⟨hl ▸ isOnWay_self w.here p, hl ▸ he, rfl⟩
      · exact .inl rfl

theorem directory_of_unlessDirectory {w : FileTree} {p : Path} {fault : FileFault}
    (h : w.unlessDirectory p fault = none) : w.at? (p.locate w.here) = some .directory := by
  unfold unlessDirectory at h
  split at h
  · rename_i hd
    unfold isDirectory at hd
    cases hs : w.status? p with
    | error f => rw [hs] at hd; cases hd
    | ok e =>
      rw [hs] at hd
      have : e = some .directory := by simpa [Except.map] using hd
      subst this
      exact at?_of_status (status?_eq_some.1 hs)
  · cases h
  · cases h

/-- **Making directories adds directories on the way.**  Without a fault, the last of them is there. -/
theorem grown_of_makeDirectoriesFrom (w : FileTree) (p : Path) (n : Nat) :
    w.Grown (IsOnWay w.here p) (w.makeDirectoriesFrom p n).1 ∧
      ((w.makeDirectoriesFrom p n).2 = none →
        (w.makeDirectoriesFrom p n).1.at? (p.locate w.here) = some .directory) := by
  induction n generalizing p with
  | zero =>
    unfold makeDirectoriesFrom
    split
    · rename_i w' hw
      exact ⟨(grown_of_makeDirectory hw).1, fun _ => (grown_of_makeDirectory hw).2⟩
    · exact ⟨Grown.refl .., nofun⟩
    · exact ⟨Grown.refl .., nofun⟩
    · exact ⟨Grown.refl .., directory_of_unlessDirectory⟩
  | succ n ih =>
    unfold makeDirectoriesFrom
    split
    · rename_i w' hw
      exact ⟨(grown_of_makeDirectory hw).1, fun _ => (grown_of_makeDirectory hw).2⟩
    · exact ⟨Grown.refl .., nofun⟩
    · dsimp only
      split
      · exact ⟨Grown.refl .., nofun⟩
      · have hparent : w.Grown (IsOnWay w.here p) (w.makeDirectoriesFrom p.parent n).1 :=
          (ih p.parent).1.mono fun _ => isOnWay_of_parent
        split
        · rename_i w' f hr
          rw [hr] at hparent
          exact ⟨hparent, nofun⟩
        · rename_i w' hr
          rw [hr] at hparent
          split
          · rename_i w'' hw
            obtain ⟨hgrown, hdir⟩ := grown_of_makeDirectory hw
            rw [hparent.here] at hgrown hdir
            exact ⟨hparent.trans hgrown, fun _ => hdir⟩
          · exact ⟨hparent, nofun⟩
          · exact ⟨hparent, fun h => hparent.here ▸ directory_of_unlessDirectory h⟩
    · exact ⟨Grown.refl .., directory_of_unlessDirectory⟩

/-- Making directories without a fault leaves one at the end. -/
theorem directory_of_makeDirectories {w : FileTree} {p : Path} (ok : (w.makeDirectories p).2 = none) :
    (w.makeDirectories p).1.at? (p.locate w.here) = some .directory :=
  (w.grown_of_makeDirectoriesFrom p p.parts.length).2 ok

/-- A path that holds a null character cannot be made a directory. -/
theorem noNull_of_makeDirectories {w : FileTree} {p : Path} (ok : (w.makeDirectories p).2 = none) :
    Text.holds p.text '\x00' = false := by
  rw [Bool.eq_false_iff]
  intro hnull
  have hmake : w.makeDirectory p = .error .nullCharacter := by
    rw [makeDirectory, find, if_pos hnull]
    rfl
  unfold makeDirectories makeDirectoriesFrom at ok
  rw [hmake] at ok
  cases ok

/-- Making a directory on a way without `..` changes nothing below it and outside of it. -/
theorem grown_makeDirectories {w : FileTree} {p : Path} (plain : ".." ∉ p.parts) :
    w.Grown (· <+: p.locate w.here) (w.makeDirectories p).1 :=
  (w.grown_of_makeDirectoriesFrom p p.parts.length).1.mono fun _ => prefix_of_isOnWay plain

/-! ### Removing -/

theorem isBelow_iff {top loc : Location} : isBelow top loc = true ↔ top <+: loc ∧ loc ≠ top := by
  rw [isBelow, Bool.and_eq_true, List.isPrefixOf_iff_prefix, decide_eq_true_eq]
  constructor
  · rintro ⟨hp, hlen⟩
    exact ⟨hp, fun h => by rw [h] at hlen; omega⟩
  · rintro ⟨hp, hne⟩
    refine ⟨hp, Nat.lt_of_le_of_ne hp.length_le fun hlen => hne ?_⟩
    exact (hp.eq_of_length hlen).symm

theorem Grown.at?_of_isBelow {w w' : FileTree} {out loc : Location} (h : w.Grown (· <+: out) w')
    (hbelow : isBelow out loc = true) : w'.at? loc = w.at? loc := by
  rcases h.at? loc with heq | ⟨hway, -, -⟩
  · exact heq
  · obtain ⟨hp, hne⟩ := isBelow_iff.1 hbelow
    exact absurd (hway.eq_of_length_le hp.length_le) hne

theorem removeTree_here (w : FileTree) (p : Path) : (w.removeTree p).1.here = w.here := by
  unfold removeTree
  split
  · rfl
  · rfl
  · rfl
  · dsimp only
    split
    · rfl
    · split <;> rfl

/-- A file that does not lie below a directory outlives it. -/
theorem file_of_removeTree {w : FileTree} {p : Path} {loc : Location} {f : File}
    (h : w.at? loc = some (.file f)) (hout : isBelow (p.locate w.here) loc = false) :
    (w.removeTree p).1.at? loc = some (.file f) := by
  have hne : loc ≠ [] := fun hnil => by
    rw [hnil] at h
    cases h
  unfold removeTree
  split
  · exact h
  · exact h
  · exact h
  · rename_i top hs hf
    obtain rfl := locate_of_find hf
    have hdir := at?_of_status hs
    have hempty := at?_filter w (fun x => !isBelow (p.locate w.here) x) hne
    rw [hout] at hempty
    dsimp only
    split
    · exact hempty.trans h
    · split
      · exact hempty.trans h
      · -- the directory itself goes too, but a file is at `loc`
        refine (at?_filter { w with entries := w.entries.filter fun e => !isBelow (p.locate w.here) e.1 }
          (fun x => !(x == p.locate w.here)) hne).trans ?_
        have : loc ≠ p.locate w.here := fun heq => by
          rw [heq, hdir] at h
          cases h
        rw [if_pos (by simpa using this)]
        exact hempty.trans h

theorem directory_of_removeTree {w w' : FileTree} {p : Path} (h : w.removeTree p = (w', none)) :
    w.at? (p.locate w.here) = some .directory := by
  unfold removeTree at h
  split at h
  · cases h
  · cases h
  · cases h
  · rename_i hs hf
    exact at?_of_status hs

/-- **A tree that has been removed is gone, and nothing else.** -/
theorem at?_of_removeTree {w w' : FileTree} {p : Path} (h : w.removeTree p = (w', none))
    (htop : p.locate w.here ≠ []) (loc : Location) :
    w'.at? loc = if p.locate w.here <+: loc then none else w.at? loc := by
  unfold removeTree at h
  split at h
  · cases h
  · cases h
  · cases h
  · rename_i top hs hf
    obtain rfl := locate_of_find hf
    dsimp only at h
    split at h
    · cases h
    · split at h
      · cases h
      · obtain rfl := (Prod.mk.inj h).1
        by_cases hne : loc = []
        · subst hne
          have : ¬ p.locate w.here <+: [] := fun hp => htop (List.prefix_nil.1 hp)
          simp [this]
        · refine (at?_filter
            { w with entries := w.entries.filter fun e => !isBelow (p.locate w.here) e.1 }
            (fun x => !(x == p.locate w.here)) hne).trans ?_
          rw [at?_filter w (fun x => !isBelow (p.locate w.here) x) hne]
          by_cases heq : loc = p.locate w.here
          · simp [heq]
          · by_cases hp : p.locate w.here <+: loc
            · have : isBelow (p.locate w.here) loc = true := isBelow_iff.2 ⟨hp, heq⟩
              simp [this, hp]
            · have : isBelow (p.locate w.here) loc = false := by
                rw [Bool.eq_false_iff]
                exact fun hb => hp (isBelow_iff.1 hb).1
              simp [this, hp, heq]

end FileTree
end PageComposer
