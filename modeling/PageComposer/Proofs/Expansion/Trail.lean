/-
# How deep an expansion goes

The stack of an expansion is a trail: its paths are distinct, each is that of a file that can be read, and
there are no more of them than the greatest depth (`Expander.Trail`). So there are no more of them than
readable files either (`Trail.length_le`). A trail is only ever made longer by a path that has been loaded
(`Trail.snoc`), and what an expansion loads shows it (`Expander.traced_expand`).

| of a load | holds |
| --- | --- |
| reference | leads to the path |
| text | is what the file of the path holds |
| stack with the path | is a trail |
| paths of the stack | were loaded before |
-/

import Mathlib.Data.Finset.Card
import PageComposer.Proofs.Expansion.Expanded

namespace PageComposer

namespace Fragments

/-- The paths of the files whose text can be read. -/
def readable (fs : Fragments) (w : FileTree) : Finset Path :=
  (w.filePaths.filter fun p => (fs.readPath w p).isOk).toFinset

theorem mem_readable {fs : Fragments} {w : FileTree} {p : Path} :
    p ∈ fs.readable w ↔ p ∈ w.filePaths ∧ ∃ cs, fs.readPath w p = .ok cs := by
  unfold readable
  rw [List.mem_toFinset, List.mem_filter]
  refine and_congr_right fun _ => ?_
  cases fs.readPath w p with
  | error f => simp [Except.isOk, Except.toBool]
  | ok cs => simp [Except.isOk, Except.toBool]

end Fragments

namespace Expander

variable (x : Expander) (w : FileTree)

/-- The number of levels that an expansion may have: neither more than the greatest depth nor more than
there are readable files. -/
def levels : Nat := min (max x.maxDepth 0).toNat (x.fragments.readable w).card

/-- A stack that an expansion may have. -/
structure Trail (stack : List Path) : Prop where
  nodup : stack.Nodup
  readable : ∀ p ∈ stack, p ∈ x.fragments.readable w
  shallow : (stack.length : Int) ≤ max x.maxDepth 0

theorem Trail.nil : x.Trail w [] := ⟨List.nodup_nil, by simp, by simp⟩

variable {x w}

/-- **A trail has no more paths than there are levels.** -/
theorem Trail.length_le {stack : List Path} (ht : x.Trail w stack) : stack.length ≤ x.levels w := by
  refine le_min (by have := ht.shallow; omega) ?_
  rw [← List.toFinset_card_of_nodup ht.nodup]
  exact Finset.card_le_card fun p hp => ht.readable p (List.mem_toFinset.1 hp)

/-- **What is entered makes a trail longer by one path.** -/
theorem Trail.snoc {stack : List Path} (ht : x.Trail w stack) {src : String} {path : Path}
    {cs : List Char} (ha : x.Admits w stack src path) (hread : x.fragments.readPath w path = .ok cs) :
    x.Trail w (stack ++ [path]) where
  nodup := by
    rw [List.nodup_append]
    refine ⟨ht.nodup, List.nodup_singleton path, fun p hp q hq => ?_⟩
    rintro rfl
    exact ha.fresh (List.mem_singleton.1 hq ▸ hp)
  readable p hp := by
    rcases List.mem_append.1 hp with hp | hp
    · exact ht.readable p hp
    · obtain rfl := List.mem_singleton.1 hp
      exact Fragments.mem_readable.2 ⟨Fragments.mem_filePaths_of_readPath ha.resolves hread, cs, hread⟩
  shallow := by
    have := ha.shallow
    rw [List.length_append, List.length_singleton]
    omega

/-! ### What has been loaded -/

/-- A load as an expansion makes it. -/
structure Sound (x : Expander) (w : FileTree) (l : Load) : Prop where
  resolves : x.fragments.resolve w l.reference = .ok l.path
  reads : x.fragments.readPath w l.path = .ok l.text.toList
  shallow : (l.stack.length : Int) < x.maxDepth
  trail : x.Trail w (l.stack ++ [l.path])

/-- A run that another goes on with, all loads between them being sound; what stands on their stacks has
been loaded, unless it stood on `stack` already. -/
structure Traced (x : Expander) (w : FileTree) (stack : List Path) (run run' : Run) : Prop where
  keeps : ∀ l ∈ run.loads, l ∈ run'.loads
  sound : ∀ l ∈ run'.loads, l ∈ run.loads ∨ x.Sound w l
  loaded : ∀ l ∈ run'.loads, l ∈ run.loads ∨
    ∀ p ∈ l.stack, p ∈ stack ∨ ∃ l' ∈ run'.loads, l'.path = p

variable {stack : List Path}

theorem Traced.of_loads_eq {run run' : Run} (h : run'.loads = run.loads) :
    Traced x w stack run run' :=
  ⟨fun _ hl => h ▸ hl, fun _ hl => .inl (h ▸ hl), fun _ hl => .inl (h ▸ hl)⟩

theorem Traced.trans {a b c : Run} (h₁ : Traced x w stack a b) (h₂ : Traced x w stack b c) :
    Traced x w stack a c where
  keeps l hl := h₂.keeps l (h₁.keeps l hl)
  sound l hl := by
    rcases h₂.sound l hl with hb | hs
    · exact h₁.sound l hb
    · exact .inr hs
  loaded l hl := by
    rcases h₂.loaded l hl with hb | hs
    · refine (h₁.loaded l hb).imp id fun hp p hmem => (hp p hmem).imp id ?_
      rintro ⟨l', hl', rfl⟩
      exact ⟨l', h₂.keeps l' hl', rfl⟩
    · exact .inr hs

/-- What is traced one level deeper is traced, if the path of that level has been loaded. -/
theorem Traced.of_snoc {run run' : Run} {path : Path} (h : Traced x w (stack ++ [path]) run run')
    (hp : ∃ l ∈ run.loads, l.path = path) : Traced x w stack run run' where
  keeps := h.keeps
  sound := h.sound
  loaded l hl := by
    refine (h.loaded l hl).imp id fun hs p hmem => ?_
    rcases hs p hmem with hp' | hp'
    · rcases List.mem_append.1 hp' with hp' | hp'
      · exact .inl hp'
      · obtain ⟨l', hl', rfl⟩ := hp
        exact .inr ⟨l', h.keeps l' hl', (List.mem_singleton.1 hp').symm⟩
    · exact .inr hp'

theorem Traced.load {run : Run} {l : Load} (hl : x.Sound w l) (hs : l.stack = stack) :
    Traced x w stack run (run.load l) where
  keeps l' hl' := List.mem_cons_of_mem _ hl'
  sound l' hl' := by
    rcases List.mem_cons.1 hl' with rfl | hl'
    · exact .inr hl
    · exact .inl hl'
  loaded l' hl' := by
    rcases List.mem_cons.1 hl' with rfl | hl'
    · exact .inr fun p hp => .inl (hs ▸ hp)
    · exact .inl hl'

/-- An attempt on a trail makes sound loads, if what it enters does. -/
theorem Attempted.traced {fill : SlotMap → List Content → Filled} {descend : Descent w stack}
    {src : String} {slots : SlotMap} {run run' : Run} {o : Outcome} (ht : x.Trail w stack)
    (hd : ∀ path hfile hnew run items, x.Trail w (stack ++ [path]) →
      Traced x w (stack ++ [path]) run (descend path hfile hnew run items).2)
    (h : Attempted x w fill stack descend src slots run o run') : Traced x w stack run run' := by
  have loaded : ∀ {path cs}, x.Admits w stack src path → x.fragments.readPath w path = .ok cs →
      Traced x w stack run (run.load ⟨stack, src, path, slots, String.ofList cs⟩) :=
    fun ha hread =>
      .load ⟨ha.resolves, by simpa using hread, ha.shallow, ht.snoc ha hread⟩ rfl
  -- what happens one level deeper, after the fragment has been loaded
  have inner : ∀ {path cs names items hfile hnew}, x.Admits w stack src path →
      x.fragments.readPath w path = .ok cs → Traced x w stack run (descend path hfile hnew
        ((run.load ⟨stack, src, path, slots, String.ofList cs⟩).resolved names) items).2 := by
    intro path cs names items hfile hnew ha hread
    have hres := Run.like_resolved (run.load ⟨stack, src, path, slots, String.ofList cs⟩) names
    refine (loaded ha hread).trans ((Traced.of_loads_eq hres.loads).trans
      ((hd path hfile hnew _ items (ht.snoc ha hread)).of_snoc ?_))
    exact ⟨_, by rw [hres.loads]; exact List.mem_cons_self .., rfl⟩
  cases h with
  | ended _ | unresolved _ | circular _ _ | deep _ _ _ | unreadable _ _ | unusable _ _ _ =>
    exact .of_loads_eq rfl
  | rejected ha hread hp => exact (loaded ha hread).trans (.of_loads_eq rfl)
  | broken ha hread hp hfile hnew hr ho => exact hr ▸ inner ha hread
  | @entered path cs items ha hread hp hfile hnew r hr ho =>
    have hin : Traced x w stack run r.2 := hr ▸ inner ha hread
    exact hin.trans (.of_loads_eq rfl)

/-- **An expansion on a trail makes sound loads.** -/
theorem traced_expand (ht : x.Trail w stack) (run : Run) (items : List Content) :
    Traced x w stack run (x.expand w stack run items).2 := by
  induction stack, run, items using Expander.expand.induct w with
  | case1 stack run items ih =>
    rw [expand_eq]
    refine Traced.trans (.of_loads_eq (run.loads_announce items)) (Attempt.Respects.perform ?_ _ _)
    exact {
      refl := fun _ => .of_loads_eq rfl
      trans := .trans
      attempt := fun src slots run => (x.attempted w SlotMap.fill stack _ src slots run).traced ht
        fun path hfile hnew run items ht' => ih path hfile hnew run items ht'
      skip := fun run sources => .of_loads_eq (run.like_skip sources).loads
      release := fun run items => .of_loads_eq (run.like_release items).loads }

end Expander
end PageComposer
