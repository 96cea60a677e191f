/-
# Walks

Directives are performed by a walk over items, over the other children of an include, over slots and over
content lists, each by way of the others.  What holds of all walks is shown by induction on them, with one
case for each thing that a walk can do (`Attempt.walk_induction`):

| walk | cases |
| --- | --- |
| item | `text`, `kept`; a directive that is `aborted`, `failed` or `resolved` |
| other children | `childless`; a child that is a `loser` or the `winner` of its name |
| slots | `unbound`, `slot` |
| list | `nil`, `cons` |

A child of an include that is no slot is performed (`Attempt.performOthers_of_loser`); one that is gets what the
slot holds (`Attempt.performOthers_of_winner`).
-/

import PageComposer.Proofs.Document.Bindings

namespace PageComposer
namespace Attempt

variable {A : Attempt}

theorem performItem_kept {h : Head} (hd : h.directive? = none) (run : Run) (cs : List Content) :
    performItem A run (.node h cs) = (.node h (perform A run cs).1, (perform A run cs).2) := by
  rw [performItem, hd]

theorem performOthers_of_loser (slots : SlotMap) (run : Run) {item : Content} {rest : List Content}
    (hc : SlotMap.counts item rest = false) :
    performOthers A slots run (item :: rest) =
      ((performItem A run item).1 :: (performOthers A slots (performItem A run item).2 rest).1,
        (performOthers A slots (performItem A run item).2 rest).2) := by
  cases item with
  | text s => rw [performOthers, performItem]
  | node h cs =>
    rw [performOthers]
    split
    · rfl
    · rename_i name c hb
      rw [if_pos (SlotMap.any_binds_of_loser hc hb)]

theorem performOthers_of_winner (slots : SlotMap) (run : Run) {h : Head} {cs rest : List Content}
    {name : String} (hb : SlotMap.binding? (.node h cs) = some (name, cs))
    (hlast : rest.any (SlotMap.binds name) = false) :
    performOthers A slots run (.node h cs :: rest) =
      (.node h ((slots.get? name).getD cs) ::
          (performOthers A slots (run.skip (Content.directives cs)) rest).1,
        (performOthers A slots (run.skip (Content.directives cs)) rest).2) := by
  rw [performOthers]
  simp only [hb, hlast, Bool.false_eq_true, if_false]

theorem names_performSlots (run : Run) (slots : SlotMap) :
    (performSlots A run slots).1.names = slots.names := by
  induction slots generalizing run with
  | nil => rw [performSlots]
  | cons s rest ih => rw [performSlots, SlotMap.names_cons, SlotMap.names_cons, ih]

/-- **Induction on walks.**  `I`, `O`, `S` and `L` are about a walk over an item, over the other children of an
include, over slots and over a list: what the walk is over, and what it leaves. -/
theorem walk_induction (A : Attempt) (I : Run → Content → Content × Run → Prop)
    (O : SlotMap → Run → List Content → List Content × Run → Prop)
    (S : Run → SlotMap → SlotMap × Run → Prop) (L : Run → List Content → List Content × Run → Prop)
    (text : ∀ run s, I run (.text s) (.text s, run))
    (kept : ∀ run h cs, h.directive? = none → L run cs (perform A run cs) →
      I run (.node h cs) (.node h (perform A run cs).1, (perform A run cs).2))
    (aborted : ∀ run h cs src slots mid after, h.directive? = some src →
      performSlots A run (SlotMap.ofChildren cs) = (slots, mid) → A src slots mid = (.aborted, after) →
      S run (SlotMap.ofChildren cs) (slots, mid) → I run (.node h cs) (.node h (slots.putBack cs), after))
    (failed : ∀ run h cs src slots mid after, h.directive? = some src →
      performSlots A run (SlotMap.ofChildren cs) = (slots, mid) → A src slots mid = (.failed, after) →
      S run (SlotMap.ofChildren cs) (slots, mid) → O slots after cs (performOthers A slots after cs) →
      I run (.node h cs)
        (.node h.settle (performOthers A slots after cs).1, (performOthers A slots after cs).2))
    (resolved : ∀ run h cs src slots mid f after, h.directive? = some src →
      performSlots A run (SlotMap.ofChildren cs) = (slots, mid) → A src slots mid = (.resolved f, after) →
      S run (SlotMap.ofChildren cs) (slots, mid) → O slots after cs (performOthers A slots after cs) →
      I run (.node h cs) (.node h.resolved f,
        (performOthers A slots after cs).2.release (performOthers A slots after cs).1))
    (childless : ∀ slots run, O slots run [] ([], run))
    (loser : ∀ slots run item rest, SlotMap.counts item rest = false →
      I run item (performItem A run item) →
      O slots (performItem A run item).2 rest (performOthers A slots (performItem A run item).2 rest) →
      O slots run (item :: rest)
        ((performItem A run item).1 :: (performOthers A slots (performItem A run item).2 rest).1,
          (performOthers A slots (performItem A run item).2 rest).2))
    (winner : ∀ slots run h cs rest name, SlotMap.binding? (.node h cs) = some (name, cs) →
      rest.any (SlotMap.binds name) = false →
      O slots (run.skip (Content.directives cs)) rest
        (performOthers A slots (run.skip (Content.directives cs)) rest) →
      O slots run (.node h cs :: rest)
        (.node h ((slots.get? name).getD cs) ::
            (performOthers A slots (run.skip (Content.directives cs)) rest).1,
          (performOthers A slots (run.skip (Content.directives cs)) rest).2))
    (unbound : ∀ run, S run [] ([], run))
    (slot : ∀ run name content rest, L run content (perform A run content) →
      S (perform A run content).2 rest (performSlots A (perform A run content).2 rest) →
      S run ((name, content) :: rest)
        ((name, (perform A run content).1) :: (performSlots A (perform A run content).2 rest).1,
          (performSlots A (perform A run content).2 rest).2))
    (nil : ∀ run, L run [] ([], run))
    (cons : ∀ run item rest, I run item (performItem A run item) →
      L (performItem A run item).2 rest (perform A (performItem A run item).2 rest) →
      L run (item :: rest)
        ((performItem A run item).1 :: (perform A (performItem A run item).2 rest).1,
          (perform A (performItem A run item).2 rest).2)) :
    (∀ run item, I run item (performItem A run item)) ∧
      (∀ slots run children, O slots run children (performOthers A slots run children)) ∧
      (∀ run slots, S run slots (performSlots A run slots)) ∧
      ∀ run items, L run items (perform A run items) := by
  refine performItem.mutual_induct A (fun run item => I run item (performItem A run item))
    (fun slots run children => O slots run children (performOthers A slots run children))
    (fun run slots => S run slots (performSlots A run slots))
    (fun run items => L run items (perform A run items)) ?_ ?_ ?_ ?_ ?_ ?_ ?_ ?_ ?_ ?_ ?_ ?_ ?_ ?_
  -- an item: a text, no directive, a directive with each outcome
  · intro run s
    rw [performItem]
    exact text run s
  · intro run h cs hd ih
    rw [performItem_kept hd]
    exact kept run h cs hd ih
  · intro run h cs src hd s after ha ihs
    simp only [performItem, hd, s, ha]
    exact aborted run h cs src s.1 s.2 after hd rfl ha ihs
  · intro run h cs src hd s after ha ihs iho
    simp only [performItem, hd, s, ha]
    exact failed run h cs src s.1 s.2 after hd rfl ha ihs iho
  · intro run h cs src hd s f after ha ihs iho
    simp only [performItem, hd, s, ha]
    exact resolved run h cs src s.1 s.2 f after hd rfl ha ihs iho
  -- the other children: which of them count is told in three ways by the recursion
  · intro slots run
    rw [performOthers]
    exact childless slots run
  · intro slots run s rest ih
    have hitem : performItem A run (.text s) = (.text s, run) := by rw [performItem]
    have hc : SlotMap.counts (.text s) rest = false := rfl
    rw [performOthers_of_loser slots run hc]
    exact loser slots run (.text s) rest hc (by rw [hitem]; exact text run s) (by rw [hitem]; exact ih)
  · intro slots run h cs rest hb first ihi ih
    have hc : SlotMap.counts (.node h cs) rest = false := by simp [SlotMap.counts, hb]
    rw [performOthers_of_loser slots run hc]
    exact loser slots run _ rest hc ihi ih
  · intro slots run h cs rest name c hb hany first ihi ih
    have hc : SlotMap.counts (.node h cs) rest = false := by rw [SlotMap.counts_eq_not hb, hany]; rfl
    rw [performOthers_of_loser slots run hc]
    exact loser slots run _ rest hc ihi ih
  · intro slots run h cs rest name c hb hany ih
    obtain rfl := SlotMap.snd_of_binding? hb
    have hlast : rest.any (SlotMap.binds name) = false := Bool.eq_false_iff.2 hany
    rw [performOthers_of_winner slots run hb hlast]
    exact winner slots run h c rest name hb hlast ih
  -- slots and lists
  · intro run
    rw [performSlots]
    exact unbound run
  · intro run name content rest first ihc ih
    rw [performSlots]
    exact slot run name content rest ihc ih
  · intro run
    rw [perform]
    exact nil run
  · intro run item rest first ihi ih
    rw [perform]
    exact cons run item rest ihi ih

end Attempt
end PageComposer
