/-
# What log files hold

Over any history of calls, resets and records, with what others do to the files in between, the logger agrees with a
regime that the history alone tells (`Regime`): a level, and the target that is active.  From that a log file can be told
without the logger.

| a file that others spare | holds |
| --- | --- |
| at any time | what it held before, and then the lines told on it (`told`) |

A line is told on a target for each record of the program that is logged while the target is active and reaches the
level in force, in the order of the history.
-/

import PageComposer.Proofs.Logging.Handlers

namespace PageComposer
namespace Logging

open Logger (Configured Opens)

/-- What is done with the logger, or by others with the files. -/
inductive Deed where
  | configure (level : String) (path : Option Path) (time : Nat)
  | reset
  /-- A record at a time that is told as `stamp`. -/
  | log (stamp : String) (r : Record)
  /-- The files are those of `w` from then on. -/
  | other (w : FileTree)

/-- The logger and the files. -/
abbrev Stage := Logger × FileTree

/-- The logger and the files after a deed. -/
def Deed.act : Deed → Stage → Stage
  | .configure level path time, (l, w) => ((l.configure w level path time).1, (l.configure w level path time).2.1)
  | .reset, (l, w) => (l.reset, w)
  | .log stamp r, (l, w) => ({ l with stamp := stamp }, (Logger.emit { l with stamp := stamp } w r).tree)
  | .other w', (l, _) => (l, w')

/-- The logger and the files after a history. -/
def run (s : Stage) (deeds : List Deed) : Stage := deeds.foldl (fun s d => d.act s) s

/-! ### Regimes -/

/-- What is in force: a level, 0 for none, and the target of the records. -/
structure Regime where
  level : Int := 0
  active : Option Target := none

namespace Regime

/-- The level that records have to reach, that of warnings where there is none. -/
def threshold (g : Regime) : Int := if g.level == 0 then 30 else g.level

/-- The regime after a deed.  A call that does not come to its end leaves no target, and its level. -/
def after (g : Regime) (s : Stage) : Deed → Regime
  | .configure level path time =>
    match Target.ofPath s.2.here path with
    | .error _ => g
    | .ok target => ⟨levelOf level, if (s.1.configure s.2 level path time).2.2 = none then some target else none⟩
  | .reset => {}
  | .log _ _ => g
  | .other _ => g

/-- The lines that a deed tells on a target. -/
def lines (g : Regime) (target : Target) : Deed → List String
  | .log stamp r =>
    if g.active = some target ∧ isOwnSource r.source = true ∧ g.threshold ≤ r.level then [stamp ++ r.line ++ "\n"]
    else []
  | _ => []

end Regime

/-- The lines that a history tells on a target. -/
def told (target : Target) : Regime → Stage → List Deed → List String
  | _, _, [] => []
  | g, s, d :: rest => g.lines target d ++ told target (g.after s d) (d.act s) rest

/-- Lines as they are written. -/
def bytes (lines : List String) : List UInt8 := lines.flatMap fun line => line.toUTF8.toList

theorem bytes_append (xs ys : List String) : bytes (xs ++ ys) = bytes xs ++ bytes ys := List.flatMap_append

/-- A logger has the handler that a regime asks for. -/
inductive Follows (l : Logger) : Regime → Prop
  | idle (hasNone : l.HasNone) : Follows l ⟨l.level, none⟩
  | active {h : Handler} (has : l.Has h) (level : h.level = l.level) : Follows l ⟨l.level, some h.target⟩

variable {l : Logger} {w : FileTree} {g : Regime} {s : Stage} {d : Deed} {loc : Location}

theorem Follows.isSound (h : Follows l g) : l.IsSound := by
  cases h with
  | idle hnone => exact .inl hnone
  | active hhas _ => exact .inr ⟨_, hhas⟩

/-- What time it is does not matter. -/
theorem Follows.stamp (h : Follows l g) (stamp : String) : Follows { l with stamp := stamp } g := by
  cases h with
  | idle hnone => exact .idle ⟨hnone.handlers, hnone.installed⟩
  | active hhas hlevel => exact .active (l := { l with stamp := stamp }) ⟨hhas.1, hhas.2, hhas.3⟩ hlevel

/-- A call that has ended is followed. -/
theorem follows_of_configured {n : Int} {target : Target} {r : Logger × FileTree × Option FileFault}
    (h : Configured l w n target r) : Follows r.1 ⟨n, if r.2.2 = none then some target else none⟩ := by
  cases h with
  | @kept h l' _ hsame hlevel hafter =>
    subst hsame hlevel
    exact .active (h := { h with level := l'.level }) hafter rfl
  | @opened file _ l' serial _ hlevel hafter =>
    subst hlevel
    exact .active (h := ⟨serial, target, l'.level, file⟩) hafter rfl
  | failed _ _ hlevel hafter =>
    subst hlevel
    exact .idle hafter

/-- **A logger follows the regime from deed to deed.** -/
theorem Follows.act (h : Follows s.1 g) (d : Deed) : Follows (d.act s).1 (g.after s d) := by
  cases d with
  | configure level path time =>
    show Follows (s.1.configure s.2 level path time).1 _
    cases hpath : Target.ofPath s.2.here path with
    | error f =>
      simp only [Regime.after, hpath, Logger.configure_of_error hpath]
      exact h
    | ok target =>
      simp only [Regime.after, hpath]
      exact follows_of_configured (h.isSound.configured hpath level time)
  | reset => exact .idle h.isSound.hasNone_reset
  | log stamp r => exact h.stamp stamp
  | other w => exact h

/-- A logger follows the regime of a whole history. -/
theorem Follows.run (h : Follows s.1 g) (deeds : List Deed) : ∃ g', Follows (run s deeds).1 g' := by
  induction deeds generalizing s g with
  | nil => exact ⟨g, h⟩
  | cons d rest ih => exact ih (h.act d)

/-- A logger that nothing has been done with follows the regime without level and target. -/
theorem follows_new : Follows {} {} := .idle ⟨rfl, rfl⟩

/-! ### Log files -/

/-- Others leave the file at a location alone, and the identities distinct. -/
def Deed.Spares (loc : Location) (w : FileTree) : Deed → Prop
  | .other w' => w'.at? loc = w.at? loc ∧ w.fresh ≤ w'.fresh ∧ w'.IsDistinct
  | _ => True

/-- Others leave the file at a location alone in a whole history. -/
def Spared (loc : Location) : Stage → List Deed → Prop
  | _, [] => True
  | s, d :: rest => d.Spares loc s.2 ∧ Spared loc (d.act s) rest

/-- The target that the file at a location is. -/
abbrev Target.at (loc : Location) : Target := .file (Path.ofLocation loc)

/-- A handler has the file at a location open if that is its target, and no file of its identity otherwise. -/
structure Handler.Finds (h : Handler) (loc : Location) (w : FileTree) : Prop where
  target : h.target = .at loc → ∃ f, w.at? loc = some (.file f) ∧ h.file = some f.identity
  others : h.target ≠ .at loc → ∀ i, h.file = some i → i < w.fresh ∧ ∀ f, w.at? loc = some (.file f) → f.identity ≠ i

/-- What spares the location does not change what a handler finds. -/
theorem Handler.Finds.of_spares {h : Handler} {w' : FileTree} (hfinds : h.Finds loc w)
    (hspares : FileTree.Spares loc w w') : h.Finds loc w' where
  target htarget := by
    obtain ⟨f, hf, hfile⟩ := hfinds.target htarget
    exact ⟨f, hspares.kept f hf, hfile⟩
  others htarget i hi := by
    obtain ⟨hlt, hne⟩ := hfinds.others htarget i hi
    refine ⟨Nat.lt_of_lt_of_le hlt hspares.fresh, fun f hf => ?_⟩
    obtain hold | ⟨-, -, hnew⟩ := hspares.new f hf
    · exact hne f hold
    · omega

/-- What is written does not change what a handler finds. -/
theorem Handler.Finds.append {h : Handler} (hfinds : h.Finds loc w) (i : Nat) (data : List UInt8) :
    h.Finds loc (w.append i data) where
  target htarget := by
    obtain ⟨f, hf, hfile⟩ := hfinds.target htarget
    refine ⟨_, (FileTree.at?_append w i data loc).trans (congrArg _ hf), ?_⟩
    rw [hfile]
    split <;> rfl
  others htarget j hj := by
    obtain ⟨hlt, hne⟩ := hfinds.others htarget j hj
    refine ⟨hlt, fun f hf => ?_⟩
    obtain ⟨g, hg, hsame⟩ := FileTree.file_of_append hf
    exact hsame ▸ hne g hg

/-- A new handler finds the file that it has opened. -/
theorem finds_of_opens {w' : FileTree} {path : Option Path} {target : Target} {file : Option Nat} {serial : Nat}
    {n : Int} (htarget : Target.ofPath w.here path = .ok target) (hopens : Opens target w file w')
    (hdistinct : w.IsDistinct) : FileTree.Spares loc w w' ∧ w'.IsDistinct ∧
      (⟨serial, target, n, file⟩ : Handler).Finds loc w' := by
  cases hopens with
  | console => exact ⟨.refl loc w, hdistinct, nofun, nofun⟩
  | @file _ between _ p i hway hopened =>
    obtain ⟨q, rfl⟩ := Target.ofPath_eq_file htarget
    rw [Path.locate_ofLocation (Path.mem_locate w.here_plain q)] at hopened
    have hdistinct' : w'.IsDistinct := hopened.distinct (hway ▸ hdistinct.makeDirectories _)
    have hspares : FileTree.Spares loc w w' := by
      refine .trans ?_ (hopened.spares loc)
      rw [hway]
      exact w.spares_makeDirectories _ loc
    obtain ⟨f, hf, rfl⟩ := hopened.file
    refine ⟨hspares, hdistinct', fun hhere => ?_, fun helse i hi => ?_⟩
    · obtain rfl : q.locate w.here = loc := by
        simpa [Target.at, Path.ofLocation] using hhere
      exact ⟨f, hf, rfl⟩
    · cases hi
      refine ⟨hdistinct'.known _ f hf, fun g hg hsame => helse ?_⟩
      rw [hdistinct'.one _ _ g f hg hf hsame]

/-- A logger that follows a regime and finds the file at a location, in a tree with distinct identities. -/
structure Keeps (loc : Location) (g : Regime) (s : Stage) : Prop where
  follows : Follows s.1 g
  distinct : s.2.IsDistinct
  finds : ∀ h ∈ s.1.handlers, h.Finds loc s.2

/-- A call of `configure` leaves the file at a location as it is, and it is found as before. -/
theorem Keeps.configure (hk : Keeps loc g s) {path : Option Path} {target : Target}
    (htarget : Target.ofPath s.2.here path = .ok target) {n : Int} {r : Logger × FileTree × Option FileFault}
    (hr : Configured s.1 s.2 n target r) :
    r.2.1.IsDistinct ∧ (∀ h ∈ r.1.handlers, h.Finds loc r.2.1) ∧ FileTree.Spares loc s.2 r.2.1 := by
  cases hr with
  | kept hbefore _ _ hafter =>
    refine ⟨hk.distinct, fun h hh => ?_, .refl loc _⟩
    rw [hafter.handlers, List.mem_singleton] at hh
    subst hh
    have hfinds := hk.finds _ (hbefore.handlers ▸ List.mem_singleton_self _)
    exact ⟨hfinds.target, hfinds.others⟩
  | opened serial hopens _ hafter =>
    obtain ⟨hspares, hdistinct, hfinds⟩ := finds_of_opens htarget hopens hk.distinct
    refine ⟨hdistinct, fun h hh => ?_, hspares⟩
    rw [hafter.handlers, List.mem_singleton] at hh
    subst hh
    exact hfinds
  | failed hspares hdistinct _ hafter =>
    refine ⟨hdistinct hk.distinct, fun h hh => ?_, hspares loc⟩
    rw [hafter.handlers] at hh
    cases hh

/-- A handler writes a line to the file at a location exactly if that is its target. -/
theorem Handler.Finds.held_tell {h : Handler} (hfinds : h.Finds loc w) (line : String) :
    (h.tell line { tree := w }).tree.held loc = w.held loc ++ if h.target = .at loc then bytes [line] else [] := by
  have hbytes : bytes [line] = line.toUTF8.toList := List.append_nil _
  rw [hbytes]
  unfold Handler.tell
  by_cases htarget : h.target = .at loc
  · obtain ⟨f, hf, hfile⟩ := hfinds.target htarget
    rw [hfile, if_pos htarget]
    exact FileTree.held_append hf _
  · rw [if_neg htarget, List.append_nil]
    cases hfile : h.file with
    | none => rfl
    | some i =>
      have hat := FileTree.at?_append_of_ne (hfinds.others htarget i hfile).2 line.toUTF8.toList
      show FileTree.held (w.append i _) loc = _
      rw [FileTree.held, hat]
      rfl

/-- A line leaves the identities distinct, and what handlers find. -/
theorem Handler.tell_keeps (h : Handler) (loc : Location) (line : String) (hdistinct : w.IsDistinct) :
    (h.tell line { tree := w }).tree.IsDistinct ∧
      ∀ h' : Handler, h'.Finds loc w → h'.Finds loc (h.tell line { tree := w }).tree := by
  unfold tell
  cases h.file with
  | none => exact ⟨hdistinct, fun _ => id⟩
  | some i => exact ⟨hdistinct.append i _, fun _ hfinds => hfinds.append i _⟩

/-- **A record comes to the file at a location exactly if a line is told on it.** -/
theorem Keeps.log (hk : Keeps loc g s) (stamp : String) (r : Record) :
    let w' := ((Deed.log stamp r).act s).2
    w'.IsDistinct ∧ (∀ h ∈ s.1.handlers, h.Finds loc w') ∧
      w'.held loc = s.2.held loc ++ bytes (g.lines (.at loc) (.log stamp r)) := by
  obtain ⟨l, w⟩ := s
  have hfinds : ∀ h ∈ l.handlers, h.Finds loc w := hk.finds
  have hstamped : Follows { l with stamp := stamp } g := hk.follows.stamp stamp
  dsimp only [Deed.act]
  cases hstamped with
  | idle hnone =>
    rw [hnone.emit_eq]
    refine ⟨hk.distinct, hfinds, ?_⟩
    simp [Regime.lines, bytes]
  | @active h hhas hlevel =>
    have hh : h.Finds loc w := hfinds h (by simp [show l.handlers = [h] from hhas.handlers])
    rw [hhas.emit_eq hlevel]
    by_cases hpass : isOwnSource r.source = true ∧ Logger.threshold { l with stamp := stamp } ≤ r.level
    · obtain ⟨hdistinct, hkeeps⟩ := h.tell_keeps loc (stamp ++ r.line ++ "\n") hk.distinct
      rw [if_pos (by simpa using hpass)]
      refine ⟨hdistinct, fun h' hh' => hkeeps h' (hfinds h' hh'), ?_⟩
      rw [hh.held_tell]
      by_cases htarget : h.target = .at loc
      · rw [if_pos htarget, Regime.lines, if_pos ⟨congrArg some htarget, hpass⟩]
      · rw [if_neg htarget, Regime.lines, if_neg fun hall => htarget (Option.some.inj hall.1)]
        rfl
    · rw [if_neg (by simpa using hpass), Regime.lines, if_neg fun hall => hpass hall.2]
      exact ⟨hk.distinct, hfinds, (List.append_nil _).symm⟩

/-- **A deed keeps a log file, but for the lines that it tells on it.** -/
theorem Keeps.act (hk : Keeps loc g s) (hd : d.Spares loc s.2) :
    Keeps loc (g.after s d) (d.act s) ∧ (d.act s).2.held loc = s.2.held loc ++ bytes (g.lines (.at loc) d) := by
  have hfollows := hk.follows.act d
  cases d with
  | configure level path time =>
    have hnone : s.2.held loc ++ bytes (g.lines (.at loc) (.configure level path time)) = s.2.held loc :=
      List.append_nil _
    rw [hnone]
    cases hpath : Target.ofPath s.2.here path with
    | error f =>
      have hsame : (Deed.configure level path time).act s = s := by
        simp only [Deed.act, Logger.configure_of_error hpath]
      rw [hsame] at hfollows ⊢
      exact ⟨⟨hfollows, hk.distinct, hk.finds⟩, rfl⟩
    | ok target =>
      obtain ⟨hdistinct, hfinds, hspares⟩ := hk.configure hpath (hk.follows.isSound.configured hpath level time)
      exact ⟨⟨hfollows, hdistinct, hfinds⟩, hspares.held⟩
  | reset =>
    refine ⟨⟨hfollows, hk.distinct, fun h hh => ?_⟩, (List.append_nil _).symm⟩
    have hh : h ∈ s.1.reset.handlers := hh
    rw [hk.follows.isSound.hasNone_reset.handlers] at hh
    cases hh
  | log stamp r =>
    obtain ⟨hdistinct, hfinds, hheld⟩ := hk.log stamp r
    exact ⟨⟨hfollows, hdistinct, hfinds⟩, hheld⟩
  | other w' =>
    obtain ⟨hat, hfresh, hdistinct⟩ := hd
    have hspares : FileTree.Spares loc s.2 w' := .of_at? hat hfresh
    exact ⟨⟨hfollows, hdistinct, fun h hh => (hk.finds h hh).of_spares hspares⟩,
      hspares.held.trans (List.append_nil _).symm⟩

/-- **A log file holds what it held, and the lines that a history tells on it.** -/
theorem Keeps.run (hk : Keeps loc g s) {deeds : List Deed} (hspared : Spared loc s deeds) :
    (Logging.run s deeds).2.held loc = s.2.held loc ++ bytes (told (.at loc) g s deeds) := by
  induction deeds generalizing s g with
  | nil => exact (List.append_nil _).symm
  | cons d rest ih =>
    obtain ⟨hd, hrest⟩ := hspared
    obtain ⟨hkeeps, hheld⟩ := hk.act hd
    calc (Logging.run (d.act s) rest).2.held loc
        = (d.act s).2.held loc ++ bytes (told (.at loc) (g.after s d) (d.act s) rest) := ih hkeeps hrest
      _ = s.2.held loc ++ bytes (told (.at loc) g s (d :: rest)) := by
        rw [hheld, told, bytes_append, List.append_assoc]

/-! ### The logger of a process -/

/-- **Logging setup is a sound state machine**: after every history the logger has at most one handler, and none between
the removal of one and the installation of another.  A call of `configure` that comes to its end leaves one, on its own
target and with its own level, whatever was done before; one that does not leaves none, unless its path holds a null
character: then it changes nothing.  A log file that others spare holds what it held at first, and then the records that
were logged at or above the level in force while it was the active target, each once and in order. -/
theorem logging_is_sound (w₀ : FileTree) (deeds : List Deed) :
    let s := run ({}, w₀) deeds
    s.1.handlers.length ≤ 1 ∧ s.1.remove.handlers = [] ∧
      (∀ level path time target, Target.ofPath s.2.here path = .ok target →
        let r := s.1.configure s.2 level path time
        (r.2.2 = none → ∃ h, r.1.handlers = [h] ∧ r.1.handler = some h ∧ h.target = target ∧
          h.level = levelOf level ∧ r.1.level = levelOf level) ∧
        (r.2.2 ≠ none → r.1.handlers = [])) ∧
      (∀ level path time f, Target.ofPath s.2.here path = .error f →
        s.1.configure s.2 level path time = (s.1, s.2, some f)) ∧
      (w₀.IsDistinct → ∀ loc, Spared loc ({}, w₀) deeds →
        s.2.held loc = w₀.held loc ++ bytes (told (.at loc) {} ({}, w₀) deeds)) := by
  obtain ⟨g, hfollows⟩ := follows_new.run (s := ({}, w₀)) deeds
  refine ⟨hfollows.isSound.length_le_one, hfollows.isSound.hasNone_remove.handlers,
    fun level path time target htarget => ?_, fun level path time f hpath => Logger.configure_of_error hpath level time,
    fun hdistinct loc hspared => ?_⟩
  · have hended := hfollows.isSound.configured htarget level time
    dsimp only
    generalize Logger.configure _ _ level path time = r at hended ⊢
    cases hended with
    | kept _ hsame hlevel hafter =>
      exact ⟨fun _ => ⟨_, hafter.handlers, hafter.handler_eq, hsame, rfl, hlevel⟩, fun hfault => absurd rfl hfault⟩
    | opened _ _ hlevel hafter =>
      exact ⟨fun _ => ⟨_, hafter.handlers, hafter.handler_eq, rfl, rfl, hlevel⟩, fun hfault => absurd rfl hfault⟩
    | failed _ _ _ hafter => exact ⟨nofun, fun _ => hafter.handlers⟩
  · exact Keeps.run ⟨follows_new, hdistinct, fun h hh => by cases hh⟩ hspared

/-- A log file, then a target below it that cannot be opened, then the log file again. -/
def sampleDeeds : List Deed :=
  [.configure "info" (some ⟨"/", ["a.log"]⟩) 0, .log "1 " ⟨20, "htmlcompose", "first"⟩,
    .configure "info" (some ⟨"/", ["a.log", "b.log"]⟩) 0, .log "2 " ⟨50, "htmlcompose", "lost"⟩,
    .configure "error" (some ⟨"/", ["a.log"]⟩) 0, .log "3 " ⟨30, "htmlcompose", "low"⟩,
    .log "4 " ⟨40, "htmlcompose", "second"⟩]

/-- The log file holds the two records that were logged on it. -/
theorem sample_log_file : (run ({}, default) sampleDeeds).2.held ["a.log"] =
    bytes ["1 INFO htmlcompose: first\n", "4 ERROR htmlcompose: second\n"] := by
  have hdistinct : (default : FileTree).IsDistinct := by
    have hnone : ∀ loc f, (default : FileTree).at? loc ≠ some (.file f) := by
      intro loc f h
      cases loc <;> cases h
    exact ⟨fun loc f hf => absurd hf (hnone loc f), fun loc _ f _ hf => absurd hf (hnone loc f)⟩
  have hheld := (logging_is_sound default sampleDeeds).2.2.2.2 hdistinct ["a.log"]
    ⟨trivial, trivial, trivial, trivial, trivial, trivial, trivial, trivial⟩
  rw [hheld]
  decide +kernel

/-- **A handler outlives a call whose path holds a null character.** -/
theorem handler_outlives_null_path :
    let s := run ({}, default) [.configure "WARNING" none 0]
    (s.1.configure s.2 "WARNING" (some (Path.ofString "a\x00b")) 0).2.2 ≠ none ∧
      (s.1.configure s.2 "WARNING" (some (Path.ofString "a\x00b")) 0).1.handlers ≠ [] := by
  decide +kernel

end Logging
end PageComposer
