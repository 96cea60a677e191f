/-
# Trees that agree outside a directory

Two trees of files agree outside a directory if the one has the entries of the other that do not lie below
it, and besides at most directories on the way to it (`FileTree.AgreesOutside`).  What has a path that does
not lead below the directory can then be read in both or in none (`AgreesOutside.openFile_iff`).
-/

import Mathlib.Data.List.Induction
import PageComposer.Expansion.Fragment
import PageComposer.Proofs.Files.Changes

namespace PageComposer
namespace FileTree

/-! ### Reading at a location -/

/-- **Where parts lead without `..`**: to the end, if everything before it is a directory and no name is too
long. -/
theorem follow_eq_ok_iff {w : FileTree} {loc : Location} {parts : List String} (plain : ".." ∉ parts) :
    w.follow loc parts = .ok (loc ++ parts) ↔
      (∀ part ∈ parts, part.utf8ByteSize ≤ 255) ∧
        ∀ n < parts.length, w.at? (loc ++ parts.take n) = some .directory := by
  induction parts generalizing loc with
  | nil => simp [follow]
  | cons part rest ih =>
    have hpart : part ≠ ".." := fun h => plain (h ▸ List.mem_cons_self ..)
    have hrest : ".." ∉ rest := fun h => plain (List.mem_cons_of_mem _ h)
    have happend : loc ++ part :: rest = (loc ++ [part]) ++ rest := by simp
    rw [follow]
    cases he : w.at? loc with
    | none =>
      refine ⟨(fun h => by cases h), fun h => ?_⟩
      have := h.2 0 (by simp)
      rw [List.take_zero, List.append_nil, he] at this
      cases this
    | some e =>
      cases e with
      | file f =>
        refine ⟨(fun h => by cases h), fun h => ?_⟩
        have := h.2 0 (by simp)
        rw [List.take_zero, List.append_nil, he] at this
        cases this
      | directory =>
        dsimp only
        rw [if_neg (by simpa using hpart)]
        by_cases hlong : part.utf8ByteSize > 255
        · rw [if_pos hlong]
          refine ⟨(fun h => by cases h), fun h => ?_⟩
          have := h.1 part (List.mem_cons_self ..)
          omega
        · rw [if_neg hlong, happend, ih hrest]
          constructor
          · rintro ⟨hshort, hdirs⟩
            refine ⟨?_, fun n hn => ?_⟩
            · simpa using ⟨by omega, hshort⟩
            · cases n with
              | zero => simpa using he
              | succ n => simpa using hdirs n (by simpa using hn)
          · rintro ⟨hshort, hdirs⟩
            refine ⟨fun p hp => hshort p (List.mem_cons_of_mem _ hp), fun n hn => ?_⟩
            simpa using hdirs (n + 1) (by simpa using hn)

/-- The path of a location is one that the system takes. -/
structure IsSpellable (loc : Location) : Prop where
  noNull : Text.holds (Path.ofLocation loc).text '\x00' = false
  short : (Path.ofLocation loc).text.utf8ByteSize ≤ 4095
  shortNames : ∀ part ∈ loc, part.utf8ByteSize ≤ 255

theorem openFile_eq_ok {w : FileTree} {p : Path} {f : File} :
    w.openFile p = .ok f ↔ w.status p = .ok (.file f) := by
  unfold openFile
  cases w.status p with
  | error e => simp [bind, Except.bind]
  | ok e => cases e <;> simp [bind, Except.bind, pure, Except.pure, throw, throwThe, MonadExceptOf.throw]

/-- **A file can be opened at a location** if it stands there and everything above it is a directory. -/
theorem openFile_ofLocation {w : FileTree} {loc : Location} {f : File} (plain : ".." ∉ loc) :
    w.openFile (Path.ofLocation loc) = .ok f ↔
      IsSpellable loc ∧ (∀ n < loc.length, w.at? (loc.take n) = some .directory) ∧
        w.at? loc = some (.file f) := by
  have hfollow := @follow_eq_ok_iff w [] loc plain
  simp only [List.nil_append] at hfollow
  have hfind : w.find (Path.ofLocation loc) = .ok loc ↔
      IsSpellable loc ∧ ∀ n < loc.length, w.at? (loc.take n) = some .directory := by
    have hparts : (Path.ofLocation loc).parts = loc := rfl
    have habs : (Path.ofLocation loc).isAbsolute = true := rfl
    rw [find_eq_ok_iff, habs, if_pos rfl, hparts, hfollow]
    exact ⟨fun ⟨hnull, hsize, hnames, hdirs⟩ => ⟨⟨hnull, hsize, hnames⟩, hdirs⟩,
      fun ⟨hspell, hdirs⟩ => ⟨hspell.noNull, hspell.short, hspell.shortNames, hdirs⟩⟩
  rw [← and_assoc, ← hfind]
  unfold openFile status
  cases hf : w.find (Path.ofLocation loc) with
  | error e => simp [bind, Except.bind]
  | ok loc' =>
    obtain rfl := find_ofLocation (fun part hp h => plain (h ▸ hp)) hf
    cases he : w.at? loc' with
    | none => simp [bind, Except.bind, he, throw, throwThe, MonadExceptOf.throw]
    | some e =>
      cases e <;> simp [bind, Except.bind, he, pure, Except.pure, throw, throwThe, MonadExceptOf.throw]

/-- Where the way is there, parts lead to the end unless a name is too long. -/
theorem follow_of_directories {w : FileTree} {loc : Location} {parts : List String}
    (plain : ".." ∉ parts) (h : ∀ n < parts.length, w.at? (loc ++ parts.take n) = some .directory) :
    w.follow loc parts = .ok (loc ++ parts) ∨ w.follow loc parts = .error .nameTooLong := by
  induction parts generalizing loc with
  | nil => simp [follow]
  | cons part rest ih =>
    have hpart : part ≠ ".." := fun h => plain (h ▸ List.mem_cons_self ..)
    have hhere : w.at? loc = some .directory := by simpa using h 0 (by simp)
    rw [follow, hhere]
    dsimp only
    rw [if_neg (by simpa using hpart)]
    split
    · exact .inr rfl
    · have hrest : ∀ n < rest.length, w.at? (loc ++ [part] ++ rest.take n) = some .directory := fun n hn => by
        simpa using h (n + 1) (by simpa using hn)
      simpa using ih (fun h => plain (List.mem_cons_of_mem _ h)) hrest

/-- Where the same files can be opened, the same text can be read or no file. -/
theorem readText_congr {w w' : FileTree} {p : Path}
    (h : ∀ f, w.openFile p = .ok f ↔ w'.openFile p = .ok f) (encoding : String) :
    w.readText p encoding = w'.readText p encoding ∨
      ∃ e e', w.readText p encoding = .error (.file e) ∧ w'.readText p encoding = .error (.file e') := by
  unfold readText
  cases ho : w.openFile p with
  | ok f =>
    rw [(h f).1 ho]
    exact .inl rfl
  | error e =>
    cases ho' : w'.openFile p with
    | ok f => cases ho.symm.trans ((h f).2 ho')
    | error e' => exact .inr ⟨e, e', rfl, rfl⟩

/-! ### Agreement -/

/-- `w'` has the entries of `w` that do not lie below `out`, and besides at most directories on the way
there. -/
structure AgreesOutside (out : Location) (w w' : FileTree) : Prop where
  here : w'.here = w.here
  at? : ∀ loc, isBelow out loc = false → w'.at? loc = w.at? loc ∨
    loc <+: out ∧ w.at? loc = none ∧ w'.at? loc = some .directory

variable {out : Location} {w w' w'' : FileTree}

theorem AgreesOutside.refl (out : Location) (w : FileTree) : AgreesOutside out w w :=
  ⟨rfl, fun _ _ => .inl rfl⟩

theorem AgreesOutside.trans (h₁ : AgreesOutside out w w') (h₂ : AgreesOutside out w' w'') :
    AgreesOutside out w w'' where
  here := h₂.here.trans h₁.here
  at? loc hout := by
    rcases h₂.at? loc hout with h | ⟨hp, hnone, hdir⟩
    · rw [h]
      exact h₁.at? loc hout
    · rcases h₁.at? loc hout with h | ⟨-, -, h⟩
      · exact .inr ⟨hp, h ▸ hnone, hdir⟩
      · rw [h] at hnone
        cases hnone

/-- The same files stand outside the directory. -/
theorem AgreesOutside.file_iff (h : AgreesOutside out w w') {loc : Location}
    (hout : isBelow out loc = false) {f : File} :
    w'.at? loc = some (.file f) ↔ w.at? loc = some (.file f) := by
  rcases h.at? loc hout with heq | ⟨-, hnone, hdir⟩
  · rw [heq]
  · rw [hnone, hdir]
    exact ⟨nofun, nofun⟩

theorem IsSound.directory_of_prefix (sound : w.IsSound) {loc : Location} {e : Entry}
    (h : w.at? loc = some e) {n : Nat} (hn : n < loc.length) : w.at? (loc.take n) = some .directory := by
  induction loc using List.reverseRecOn generalizing e with
  | nil => simp at hn
  | append_singleton loc name ih =>
    have hdir := sound.parents loc name e h
    rw [List.length_append, List.length_singleton] at hn
    rw [List.take_append_of_le_length (by omega)]
    rcases Nat.lt_or_eq_of_le (Nat.le_of_lt_succ hn) with hlt | rfl
    · exact ih hdir hlt
    · rw [List.take_length]
      exact hdir

/-- What stands at the end of a path without `..` can be looked up there, if nothing is too long. -/
theorem IsSound.status_of_at? (sound : w.IsSound) {p : Path} (plain : ".." ∉ p.parts)
    (noNull : Text.holds p.text '\x00' = false) {e : Entry} (he : w.at? (p.locate w.here) = some e) :
    w.status p = .ok e ∨ w.IsTooLong p := by
  by_cases hsize : p.text.utf8ByteSize ≤ 4095
  · have hlocate := Path.foldl_step plain (if p.isAbsolute then [] else w.here)
    have hway : ∀ n < p.parts.length,
        w.at? ((if p.isAbsolute then [] else w.here) ++ p.parts.take n) = some .directory :=
      fun n hn => by
        have := sound.directory_of_prefix he (n := (if p.isAbsolute then [] else w.here).length + n)
          (by rw [Path.locate, hlocate, List.length_append]; omega)
        rwa [Path.locate, hlocate, List.take_length_add_append] at this
    rcases follow_of_directories plain hway with hfollow | hlong
    · left
      rw [← hlocate, ← Path.locate] at hfollow
      rw [status, find_eq_ok_iff.2 ⟨noNull, hsize, hfollow⟩]
      simp [bind, Except.bind, he, pure, Except.pure]
    · exact .inr ⟨noNull, .inr hlong⟩
  · exact .inr ⟨noNull, .inl (by omega)⟩

/-- What lies below a path that nothing was found at is not there. -/
theorem IsSound.at?_of_missing (sound : w.IsSound) {p : Path} (plain : ".." ∉ p.parts)
    (noNull : Text.holds p.text '\x00' = false) (missing : w.hasEntry p = .ok false) {loc : Location}
    (hbelow : isBelow (p.locate w.here) loc = true) : w.at? loc = none := by
  cases he : w.at? loc with
  | none => rfl
  | some e =>
    obtain ⟨⟨rest, rfl⟩, hne⟩ := isBelow_iff.1 hbelow
    have hrest : rest ≠ [] := fun h => hne (by simp [h])
    have htop := sound.directory_of_prefix he (n := (p.locate w.here).length)
      (by simpa using List.length_pos_iff.2 hrest)
    rw [List.take_left] at htop
    unfold hasEntry at missing
    rcases sound.status_of_at? plain noNull htop with hs | hlong
    · rw [status?_eq_some.2 hs] at missing
      cases missing
    · rw [status?_eq_error.2 ⟨hlong, rfl⟩] at missing
      cases missing

theorem isBelow_take {loc : Location} (hout : isBelow out loc = false) (n : Nat) :
    isBelow out (loc.take n) = false := by
  rw [Bool.eq_false_iff] at hout ⊢
  intro hb
  obtain ⟨hp, hne⟩ := isBelow_iff.1 hb
  refine hout (isBelow_iff.2 ⟨hp.trans (List.take_prefix n loc), fun heq => hne ?_⟩)
  exact ((List.take_prefix n loc).trans (heq ▸ List.prefix_rfl)).eq_of_length_le hp.length_le

/-- **Outside the directory the same files can be opened.** -/
theorem AgreesOutside.openFile_iff (h : AgreesOutside out w w') (sound : w.IsSound) {loc : Location}
    (plain : ".." ∉ loc) (hout : isBelow out loc = false) {f : File} :
    w'.openFile (Path.ofLocation loc) = .ok f ↔ w.openFile (Path.ofLocation loc) = .ok f := by
  rw [openFile_ofLocation plain, openFile_ofLocation plain, h.file_iff hout]
  constructor
  · rintro ⟨hspell, -, hfile⟩
    exact ⟨hspell, fun n hn => sound.directory_of_prefix hfile hn, hfile⟩
  · rintro ⟨hspell, hdirs, hfile⟩
    refine ⟨hspell, fun n hn => ?_, hfile⟩
    rcases h.at? _ (isBelow_take hout n) with heq | ⟨-, hnone, -⟩
    · rw [heq, hdirs n hn]
    · rw [hdirs n hn] at hnone
      cases hnone

/-- **A file outside the directory has the text that it had**, whatever path leads to it in both trees. -/
theorem AgreesOutside.readText_of_file (h : AgreesOutside out w w') {p : Path} {f : File}
    (hfile : w.status p = .ok (.file f)) (hout : isBelow out (p.locate w.here) = false)
    {encoding : String} {cs : List Char} (hread : w'.readText p encoding = .ok cs) :
    w.readText p encoding = .ok cs := by
  have hopen : w'.openFile p = .ok f := by
    cases ho : w'.openFile p with
    | error e =>
      rw [readText, ho] at hread
      cases hread
    | ok f' =>
      have hat := at?_of_status (openFile_eq_ok.1 ho)
      rw [h.here, h.file_iff hout, at?_of_status hfile] at hat
      cases hat
      rfl
  have hsame : ∀ g, w.openFile p = .ok g ↔ w'.openFile p = .ok g := fun g => by
    rw [hopen, openFile_eq_ok.2 hfile]
  rcases readText_congr hsame encoding with heq | ⟨e, e', -, he'⟩
  · exact heq.trans hread
  · cases hread.symm.trans he'

end FileTree
end PageComposer
