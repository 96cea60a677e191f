/-
# The handler that is installed

What the program remembers of its logger agrees with the logger (`Logger.IsSound`): the logger has no handler but the one
that is installed, and that one has the level of the logger.  A call of `configure` then ends in one of three ways
(`Logger.Configured`), and in each the logger stays sound.

| the call | the handlers |
| --- | --- |
| finds its target installed | the same handler, with the new level |
| opens its target | a new handler on the target |
| does not come to its end | none |
-/

import PageComposer.Logging.Logger
import PageComposer.Proofs.Files.Identities

namespace PageComposer
namespace Logging

/-- The path of a target that is made of a path is one without detours. -/
theorem Target.ofPath_eq_file {here : Location} {path : Option Path} {p : Path}
    (h : Target.ofPath here path = .ok (.file p)) : ∃ q : Path, p = Path.ofLocation (q.locate here) := by
  unfold ofPath at h
  split at h
  · cases h
  · rename_i q
    split at h
    · cases h
    · cases h
      exact ⟨q, rfl⟩

namespace Logger

/-- The logger has one handler, which is the one that is installed. -/
structure Has (l : Logger) (h : Handler) : Prop where
  handlers : l.handlers = [h]
  installed : l.installed = some h.serial
  configured : l.configured = some h.target

/-- The logger has no handler, and none is installed. -/
structure HasNone (l : Logger) : Prop where
  handlers : l.handlers = []
  installed : l.installed = none

/-- What is remembered of the logger agrees with it. -/
def IsSound (l : Logger) : Prop := l.HasNone ∨ ∃ h, l.Has h

variable {l l' : Logger} {h : Handler} {n : Int}

theorem IsSound.length_le_one (hl : l.IsSound) : l.handlers.length ≤ 1 := by
  obtain hnone | ⟨h, hhas⟩ := hl
  · rw [hnone.handlers]
    exact Nat.zero_le 1
  · rw [hhas.handlers]
    exact Nat.le_refl 1

/-- The handler that the logger has is found as the one that is installed. -/
theorem Has.handler_eq (hl : l.Has h) : l.handler = some h := by
  simp [handler, hl.installed, hl.handlers]

/-- No handler is left when the one that is installed is removed. -/
theorem IsSound.hasNone_remove (hl : l.IsSound) : l.remove.HasNone := by
  unfold remove
  obtain hnone | ⟨h, hhas⟩ := hl
  · rw [hnone.installed]
    exact hnone
  · rw [hhas.installed, hhas.handlers]
    exact ⟨by simp, rfl⟩

@[simp] theorem level_remove (l : Logger) : l.remove.level = l.level := by
  unfold remove
  split <;> rfl

theorem IsSound.hasNone_reset (hl : l.IsSound) : l.reset.HasNone :=
  ⟨hl.hasNone_remove.handlers, hl.hasNone_remove.installed⟩

/-- The handler that is installed gets the new level. -/
theorem Has.relevel (hl : l.Has h) (n : Int) : (l.relevel n).Has { h with level := n } :=
  ⟨by simp [Logger.relevel, hl.installed, hl.handlers], hl.installed, hl.configured⟩

/-- A logger without handlers has the one that is added. -/
theorem HasNone.has_add (hl : l.HasNone) (target : Target) (n : Int) (file : Option Nat) :
    (l.add target n file).Has ⟨l.serials, target, n, file⟩ :=
  ⟨by rw [add, hl.handlers]; rfl, rfl, rfl⟩

/-- A new handler finds its target open in `w'`. -/
inductive Opens : Target → FileTree → Option Nat → FileTree → Prop
  | console {w : FileTree} : Opens .console w none w
  | file {w between w' : FileTree} {p : Path} {i : Nat} (way : between = (w.makeDirectories p.parent).1)
      (opened : FileTree.Opened (p.locate between.here) between i w') : Opens (.file p) w (some i) w'

/-- How a call with a target and a level ends: the logger, the files, and the fault if it does not come to its end. -/
inductive Configured (l : Logger) (w : FileTree) (n : Int) (target : Target) :
    Logger × FileTree × Option FileFault → Prop
  | kept {h : Handler} {l' : Logger} (before : l.Has h) (same : h.target = target) (level : l'.level = n)
      (after : l'.Has { h with level := n }) : Configured l w n target (l', w, none)
  | opened {file : Option Nat} {w' : FileTree} {l' : Logger} (serial : Nat) (opens : Opens target w file w')
      (level : l'.level = n) (after : l'.Has ⟨serial, target, n, file⟩) : Configured l w n target (l', w', none)
  | failed {w' : FileTree} {f : FileFault} {l' : Logger} (spares : ∀ loc, FileTree.Spares loc w w')
      (distinct : w.IsDistinct → w'.IsDistinct) (level : l'.level = n) (after : l'.HasNone) :
      Configured l w n target (l', w', some f)

/-- Where there is no handler, a new one is installed or there is still none. -/
theorem HasNone.configured_install (hl : l.HasNone) (before : Logger) (hlevel : l.level = n) (target : Target)
    (w : FileTree) (time : Nat) : Configured before w n target (l.install n target w time) := by
  unfold install
  cases target with
  | console => exact .opened _ .console hlevel (hl.has_add .console n none)
  | file p =>
    have hspares := w.spares_makeDirectories p.parent
    have hdistinct : w.IsDistinct → _ := fun h => h.makeDirectories p.parent
    dsimp only
    split
    · rename_i w₁ f hmade
      rw [hmade] at hspares hdistinct
      exact .failed hspares hdistinct hlevel hl
    · rename_i w₁ hmade
      have hway : w₁ = (w.makeDirectories p.parent).1 := by rw [hmade]
      rw [hmade] at hspares hdistinct
      split
      · exact .failed hspares hdistinct hlevel hl
      · rename_i hopened
        exact .opened _ (.file hway (FileTree.opened_of_openToAppend hopened)) hlevel (hl.has_add (.file p) n _)

/-- **A call ends with its target installed, or with no handler.** -/
theorem IsSound.configured (hl : l.IsSound) {w : FileTree} {path : Option Path} {target : Target}
    (htarget : Target.ofPath w.here path = .ok target) (level : String) (time : Nat) :
    Configured l w (levelOf level) target (l.configure w level path time) := by
  unfold configure
  rw [htarget]
  dsimp only
  split
  · rename_i hsame
    rw [Bool.and_eq_true, beq_iff_eq] at hsame
    obtain hnone | ⟨h, hhas⟩ := hl
    · rw [hnone.installed] at hsame
      exact absurd hsame.2 (by decide)
    · have hleveled : ({ l with level := levelOf level } : Logger).Has h := ⟨hhas.1, hhas.2, hhas.3⟩
      exact .kept hhas (Option.some.inj (hhas.configured.symm.trans hsame.1)) rfl (hleveled.relevel _)
  · have hleveled : ({ l with level := levelOf level } : Logger).IsSound :=
      hl.imp (fun h => ⟨h.1, h.2⟩) fun ⟨h, hhas⟩ => ⟨h, ⟨hhas.1, hhas.2, hhas.3⟩⟩
    exact hleveled.hasNone_remove.configured_install l (level_remove _) target w time

/-- A call whose path holds a null character changes nothing. -/
theorem configure_of_error {w : FileTree} {path : Option Path} {f : FileFault}
    (hpath : Target.ofPath w.here path = .error f) (level : String) (time : Nat) :
    l.configure w level path time = (l, w, some f) := by
  rw [configure, hpath]

/-- What a record does where one handler is installed, with the level of the logger. -/
theorem Has.emit_eq (hl : l.Has h) (hlevel : h.level = l.level) (w : FileTree) (r : Record) :
    l.emit w r = if isOwnSource r.source && l.threshold ≤ r.level then h.tell (l.stamp ++ r.line ++ "\n") { tree := w }
      else { tree := w } := by
  unfold emit
  by_cases hpass : (isOwnSource r.source && decide (l.threshold ≤ r.level)) = true
  · -- a record that passes the logger passes the handler
    have hreach : h.level ≤ r.level := by
      have hthreshold : l.threshold ≤ r.level := of_decide_eq_true (Bool.and_eq_true_iff.1 hpass).2
      unfold threshold at hthreshold
      split at hthreshold
      · rename_i hzero
        rw [beq_iff_eq] at hzero
        omega
      · omega
    rw [if_pos hpass, if_pos hpass, hl.handlers, List.foldl_cons, List.foldl_nil, if_pos hreach]
  · rw [if_neg hpass, if_neg hpass]

/-- What a record does where there is no handler: nothing. -/
theorem HasNone.emit_eq (hl : l.HasNone) (w : FileTree) (r : Record) : l.emit w r = { tree := w } := by
  rw [emit, hl.handlers, List.foldl_nil, ite_self]

end Logger
end Logging
end PageComposer
