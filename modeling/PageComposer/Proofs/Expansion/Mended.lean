/-
# Mending a fragment

An expansion that the text of a fragment has ended can be gone on with once the fragment is mended: what it
has left becomes what the document itself would become with the new files (`Expander.expand_resumes`).

| what is needed | is told by |
| --- | --- |
| where the expansion has stopped | `Attempt.Tells.halted` |
| a completed directive that did not read the fragment does the same with the new files | `expand_eq_of_avoids` |
| what is left stands for the document | `Halted.resumes` |

The rejected text is the last that was loaded, and every load before it is that of a directive which was
completed or encloses the one that was struck (`Run.Course`).  The fragment of an enclosing directive is on
the stack, so it is another.
-/

import PageComposer.Proofs.Expansion.Reads
import PageComposer.Proofs.Expansion.Resumed

namespace PageComposer

/-! ### Files -/

/-- Trees of files in which references lead to the same, the file of the path `F` apart. -/
structure Fragments.DiffersAt (fs : Fragments) (F : Path) (w w' : FileTree) : Prop where
  here : w'.here = w.here
  elsewhere : ∀ src path, fs.resolve w src = .ok path → path ≠ F →
    ∀ f, w.openFile path = .ok f ↔ w'.openFile path = .ok f

/-- Another file in the place of one makes such a tree. -/
theorem Fragments.differsAt_put (fs : Fragments) {w : FileTree} {loc : Location} {old : File} (new : File)
    (hloc : loc ≠ []) (hold : w.at? loc = some (.file old)) :
    fs.DiffersAt (Path.ofLocation loc) w (w.put loc (.file new)) where
  here := rfl
  elsewhere src path hr hne f := by
    obtain ⟨loc', rfl, plain⟩ := resolve_eq_ofLocation hr
    have hplain : ".." ∉ loc' := fun h => plain _ h rfl
    have hother : loc' ≠ loc := fun h => hne (h ▸ rfl)
    have hdirectory : ∀ n, w.at? (loc'.take n) = some .directory ↔
        (w.put loc (.file new)).at? (loc'.take n) = some .directory := by
      intro n
      rw [FileTree.at?_put w hloc]
      split
      · rename_i htake
        rw [htake, hold]
        simp
      · rfl
    rw [FileTree.openFile_ofLocation hplain, FileTree.openFile_ofLocation hplain, FileTree.at?_put w hloc,
      if_neg hother]
    simp only [hdirectory]

theorem Fragments.ne_markup_of_resolve {fs : Fragments} {w : FileTree} {src : String} {f : FragmentFault}
    (h : fs.resolve w src = .error f) (g : Markup.Fault) : f ≠ .markup g := by
  rintro rfl
  unfold resolve at h
  dsimp only at h
  split at h <;> cases h

theorem Fragments.ne_markup_of_readPath {fs : Fragments} {w : FileTree} {path : Path} {f : FragmentFault}
    (h : fs.readPath w path = .error f) (g : Markup.Fault) : f ≠ .markup g := by
  rintro rfl
  unfold readPath at h
  split at h
  · cases h
  · split at h <;> cases h

/-! ### What has been loaded -/

namespace Run

/-- The course of a run: once it has ended nothing is loaded any more; if a text was rejected, that was the
last that was loaded, and what is loaded can be read. -/
structure Course (fs : Fragments) (w : FileTree) (run run' : Run) : Prop where
  ended : run.isOver = true → run'.fault? = run.fault? ∧ run'.loads = run.loads
  loads : run.loads <:+ run'.loads
  rejected : run.isOver = false → ∀ f, run'.fault? = some (.markup f) →
    ∃ l before, run'.loads = l :: before ∧ run.loads <:+ before ∧ Markup.parse l.source = .error f
  reads : ∀ l ∈ run'.loads, l ∈ run.loads ∨ ∃ cs, fs.readPath w l.path = .ok cs

variable {fs : Fragments} {w : FileTree} {F : Path}

theorem isOver_of_fault? {run : Run} {f : FragmentFault} (h : run.fault? = some f) : run.isOver = true := by
  rw [isOver, h]
  rfl

/-- A run goes on where it stands, if it does not end with a rejected text. -/
theorem Course.of_loads_eq {run run' : Run} (hloads : run'.loads = run.loads)
    (hended : run.isOver = true → run'.fault? = run.fault?)
    (hf : run.isOver = false → ∀ f, run'.fault? ≠ some (.markup f)) : Course fs w run run' where
  ended ho := ⟨hended ho, hloads⟩
  loads := hloads ▸ List.suffix_rfl
  rejected hgo f h := absurd h (hf hgo f)
  reads _ hl := .inl (hloads ▸ hl)

theorem Course.of_like {run run' : Run} (h : run.Like run') : Course fs w run run' :=
  .of_loads_eq h.loads (fun _ => h.fault) fun hgo f hf => by
    rw [isOver_of_fault? (h.fault.symm.trans hf)] at hgo
    cases hgo

theorem Course.trans {a b c : Run} (h₁ : Course fs w a b) (h₂ : Course fs w b c) : Course fs w a c where
  ended ho := by
    obtain ⟨hfault, hloads⟩ := h₁.ended ho
    obtain ⟨hfault', hloads'⟩ := h₂.ended (by rw [isOver, hfault]; exact ho)
    exact ⟨hfault'.trans hfault, hloads'.trans hloads⟩
  loads := h₁.loads.trans h₂.loads
  rejected hgo f hf := by
    cases hb : b.isOver with
    | true =>
      obtain ⟨hfault, hloads⟩ := h₂.ended hb
      rw [hloads]
      exact h₁.rejected hgo f (hfault.symm.trans hf)
    | false =>
      obtain ⟨l, before, hloads, hsuffix, hp⟩ := h₂.rejected hb f hf
      exact ⟨l, before, hloads, h₁.loads.trans hsuffix, hp⟩
  reads l hl := by
    rcases h₂.reads l hl with hl | hr
    · exact h₁.reads l hl
    · exact .inr hr

/-- A run in which nothing has been loaded from `F`, the load apart whose text was rejected. -/
structure Spares (F : Path) (run : Run) : Prop where
  rejected : run.isOver = true → ∃ f, run.fault? = some (.markup f)
  loads : ∀ l ∈ (if run.isOver then run.loads.tail else run.loads), l.path ≠ F

theorem Spares.of_course {run run' : Run} (h : Course fs w run run') (hs : Spares F run') :
    Spares F run := by
  cases ho : run.isOver with
  | true =>
    obtain ⟨hfault, hloads⟩ := h.ended ho
    have ho' : run'.isOver = true := by rw [isOver, hfault]; exact ho
    refine ⟨fun _ => hfault ▸ hs.rejected ho', fun l hl => hs.loads l ?_⟩
    rw [ho] at hl
    rw [ho', hloads]
    exact hl
  | false =>
    refine ⟨fun ho' => ?_, fun l hl => ?_⟩
    · rw [ho] at ho'
      cases ho'
    rw [ho, if_neg Bool.false_ne_true] at hl
    cases ho' : run'.isOver with
    | true =>
      obtain ⟨f, hf⟩ := hs.rejected ho'
      obtain ⟨l', before, hloads, hsuffix, -⟩ := h.rejected ho f hf
      refine hs.loads l ?_
      rw [ho', if_pos rfl, hloads]
      exact hsuffix.subset hl
    | false =>
      refine hs.loads l ?_
      rw [ho', if_neg Bool.false_ne_true]
      exact h.loads.subset hl

end Run

namespace Expander

variable {x : Expander} {w w' : FileTree} {stack : List Path} {F : Path}

/-- The attempts of an expansion in the fragments of `stack`. -/
abbrev attempts (x : Expander) (w : FileTree) (stack : List Path) : Attempt :=
  x.attempt w SlotMap.fill stack (x.descent w stack)

theorem stops (x : Expander) (w : FileTree) (stack : List Path) : (x.attempts w stack).Stops :=
  fun src slots run ho => by rw [attempts, attempt, if_pos ho]

/-- A completed attempt was made, and its fragment expanded, in a run that goes on. -/
theorem attempts_done (x : Expander) (w : FileTree) (stack : List Path) (src : String) (slots : SlotMap)
    (run : Run) (h : (x.attempts w stack src slots run).1 ≠ .aborted) :
    (x.attempts w stack src slots run).2.isOver = false := by
  cases ho : run.isOver with
  | true =>
    rw [x.stops w stack src slots run ho] at h
    exact absurd rfl h
  | false =>
    have ha : Attempted x w SlotMap.fill stack (x.descent w stack) src slots run
        (x.attempts w stack src slots run).1 (x.attempts w stack src slots run).2 := x.attempted ..
    revert h ha
    generalize x.attempts w stack src slots run = r
    intro h ha
    obtain ⟨o, run'⟩ := r
    cases ha with
    | ended _ | unresolved _ | unusable _ _ _ | rejected _ _ _ | broken _ _ _ _ _ _ _ => exact absurd rfl h
    | circular _ _ | deep _ _ _ | unreadable _ _ => exact ho
    | entered _ _ _ _ _ _ hover => exact hover

/-- An attempt keeps to the course, if what it enters does. -/
theorem Attempted.course {src : String} {slots : SlotMap} {run run' : Run} {o : Outcome}
    (hgo : run.isOver = false)
    (hd : ∀ path, path ∈ w.filePaths → stack.contains path = false → ∀ run items,
      Run.Course x.fragments w run (x.expand w (stack ++ [path]) run items).2)
    (h : Attempted x w SlotMap.fill stack (x.descent w stack) src slots run o run') :
    Run.Course x.fragments w run run' := by
  have ends : run.isOver = true → ∀ {p : Prop}, p := fun ho => by rw [hgo] at ho; cases ho
  have fails : ∀ message, Run.Course x.fragments w run (run.fail message) := fun message =>
    .of_loads_eq rfl (fun _ => rfl) fun hgo f hf => by
      have hfault : run.fault? = some (.markup f) := hf
      rw [Run.isOver_of_fault? hfault] at hgo
      cases hgo
  have loaded : ∀ {path cs}, x.fragments.readPath w path = .ok cs →
      ∀ l ∈ (run.load ⟨stack, src, path, slots, String.ofList cs⟩).loads,
        l ∈ run.loads ∨ ∃ cs, x.fragments.readPath w l.path = .ok cs := by
    intro path cs hread l hl
    rcases List.mem_cons.1 hl with rfl | hl
    · exact .inr ⟨cs, hread⟩
    · exact .inl hl
  have inner : ∀ {path cs items}, x.fragments.readPath w path = .ok cs → path ∈ w.filePaths →
      stack.contains path = false → Run.Course x.fragments w run (x.expand w (stack ++ [path])
        ((run.load ⟨stack, src, path, slots, String.ofList cs⟩).resolved (slots.fill items).resolved)
        (slots.fill items).content).2 := by
    intro path cs items hread hfile hnew
    have hlike := Run.like_resolved (run.load ⟨stack, src, path, slots, String.ofList cs⟩)
      (slots.fill items).resolved
    have hin := hd path hfile hnew ((run.load ⟨stack, src, path, slots, String.ofList cs⟩).resolved
      (slots.fill items).resolved) (slots.fill items).content
    have hsuffix : run.loads <:+ ((run.load ⟨stack, src, path, slots, String.ofList cs⟩).resolved
        (slots.fill items).resolved).loads := by
      rw [hlike.loads]
      exact List.suffix_cons ..
    refine ⟨fun ho => ends ho, hsuffix.trans hin.loads, fun _ f hf => ?_, ?_⟩
    · obtain ⟨l, before, hloads, hbefore, hp⟩ := hin.rejected ((Run.isOver_of_like hlike).trans hgo) f hf
      exact ⟨l, before, hloads, hsuffix.trans hbefore, hp⟩
    · intro l hl
      rcases hin.reads l hl with hl | hr
      · rw [hlike.loads] at hl
        exact loaded hread l hl
      · exact .inr hr
  cases h with
  | ended ho => exact ends ho
  | unresolved hr =>
    exact .of_loads_eq rfl (fun ho => ends ho) fun _ f hf =>
      Fragments.ne_markup_of_resolve hr f (Option.some.inj hf)
  | circular _ _ | deep _ _ _ | unreadable _ _ => exact fails _
  | unusable _ hread _ =>
    exact .of_loads_eq rfl (fun ho => ends ho) fun _ f hf =>
      Fragments.ne_markup_of_readPath hread f (Option.some.inj hf)
  | rejected _ hread hp =>
    refine ⟨fun ho => ends ho, List.suffix_cons .., fun _ f hf => ?_, loaded hread⟩
    obtain rfl := FragmentFault.markup.inj (Option.some.inj hf)
    exact ⟨_, run.loads, rfl, List.suffix_rfl, hp⟩
  | broken _ hread _ hfile hnew hr _ => exact hr ▸ inner hread hfile hnew
  | @entered path cs items ha hread hp hfile hnew r hr ho =>
    have hin : Run.Course x.fragments w run r.2 := hr ▸ inner hread hfile hnew
    exact hin.trans (.of_like (Run.like_included _ src))

theorem course_announce (run : Run) (items : List Content) :
    Run.Course x.fragments w run (run.announce items).2 := by
  have hfault := run.fault_announce items
  refine .of_loads_eq (run.loads_announce items) (fun _ => hfault) fun hgo f hf => ?_
  rw [Run.isOver_of_fault? (hfault.symm.trans hf)] at hgo
  cases hgo

/-- A walk keeps to the course, if the fragments that it enters do. -/
theorem respects_course_of (hd : ∀ path, path ∈ w.filePaths → stack.contains path = false → ∀ run items,
      Run.Course x.fragments w run (x.expand w (stack ++ [path]) run items).2) :
    (x.attempts w stack).Respects (Run.Course x.fragments w) where
  refl _ := .of_like ⟨rfl, rfl, rfl, rfl⟩
  trans := .trans
  attempt src slots run := by
    cases ho : run.isOver with
    | true =>
      rw [x.stops w stack src slots run ho]
      exact .of_like ⟨rfl, rfl, rfl, rfl⟩
    | false => exact (x.attempted w SlotMap.fill stack _ src slots run).course ho hd
  skip run sources := .of_like (run.like_skip sources)
  release run items := .of_like (run.like_release items)

/-- **An expansion keeps to the course.** -/
theorem course_expand (run : Run) (items : List Content) :
    Run.Course x.fragments w run (x.expand w stack run items).2 := by
  induction stack, run, items using Expander.expand.induct w with
  | case1 stack run items ih =>
    rw [expand_eq]
    exact (course_announce run items).trans ((respects_course_of ih).perform _ _)

theorem respects_course (x : Expander) (w : FileTree) (stack : List Path) :
    (x.attempts w stack).Respects (Run.Course x.fragments w) :=
  respects_course_of fun _ _ _ => course_expand

/-! ### The same with other files -/

/-- A run that goes on and in which nothing has been loaded from `F`. -/
def Avoids (F : Path) (run : Run) : Prop := run.isOver = false ∧ ∀ l ∈ run.loads, l.path ≠ F

theorem Avoids.of_extends {run run' : Run} (h : run.Extends run') (hg : Avoids F run') : Avoids F run :=
  ⟨h.goes hg.1, fun l hl => hg.2 l (h.loads.subset hl)⟩

/-- What an attempt does without reading `F` it can do with other files there, if what it enters does. -/
theorem Attempted.elsewhere (hd : x.fragments.DiffersAt F w w') {cs : List Char}
    (hF : x.fragments.readPath w F = .ok cs) {src : String} {slots : SlotMap} {run run' : Run} {o : Outcome}
    (enters : ∀ path, path ∈ w.filePaths → stack.contains path = false → ∀ run items,
      Avoids F (x.expand w (stack ++ [path]) run items).2 →
      x.expand w' (stack ++ [path]) run items = x.expand w (stack ++ [path]) run items)
    (h : Attempted x w SlotMap.fill stack (x.descent w stack) src slots run o run') (hg : Avoids F run') :
    Attempted x w' SlotMap.fill stack (x.descent w' stack) src slots run o run' := by
  have hresolve : x.fragments.resolve w src = x.fragments.resolve w' src := resolve_congr hd.here src
  have admits : ∀ {path}, x.Admits w stack src path → x.Admits w' stack src path :=
    fun ha => ⟨hresolve ▸ ha.resolves, ha.fresh, ha.shallow⟩
  have alike : ∀ {path}, x.Admits w stack src path → path ≠ F → x.fragments.ReadsAlike w w' src := by
    intro path ha hne
    refine Fragments.readsAlike_of_openFile hresolve fun p hp => ?_
    obtain rfl := Except.ok.inj (ha.resolves.symm.trans hp)
    exact hd.elsewhere src path ha.resolves hne
  cases h with
  | ended ho => exact .ended ho
  | unresolved hr => exact .unresolved (hresolve ▸ hr)
  | circular hr hin => exact .circular (hresolve ▸ hr) hin
  | deep hr hnew hdeep => exact .deep (hresolve ▸ hr) hnew hdeep
  | @unreadable path p reason ha hread =>
    -- `F` can be read
    have hne : path ≠ F := by
      rintro rfl
      cases hread.symm.trans hF
    rcases (alike ha hne).readPath _ ha.resolves with heq | ⟨reason, reason', hfault, hfault'⟩
    · exact .unreadable (admits ha) (heq ▸ hread)
    · cases hread.symm.trans hfault
      have : Attempted x w' SlotMap.fill stack (x.descent w' stack) src slots run .failed _ :=
        .unreadable (admits ha) hfault'
      exact this
  | unusable _ _ _ | rejected _ _ _ => cases hg.1
  | broken _ _ _ _ _ _ ho => rw [hg.1] at ho; cases ho
  | @entered path cs items ha hread hp hfile hnew r hr ho =>
    subst hr
    have hinner := Avoids.of_extends (Run.like_included _ src).extends hg
    have hne : path ≠ F := hinner.2 _ (mem_loads_expand ..)
    have hread' : x.fragments.readPath w' path = .ok cs := by
      rcases (alike ha hne).readPath path ha.resolves with heq | ⟨reason, -, hfault, -⟩
      · exact heq ▸ hread
      · cases hread.symm.trans hfault
    have hfile' := Fragments.mem_filePaths_of_readPath (admits ha).resolves hread'
    exact .entered (admits ha) hread' hp hfile' hnew (enters path hfile hnew _ _ hinner).symm ho

/-- **An expansion that does not read `F` is the same with other files there.** -/
theorem expand_eq_of_avoids (hd : x.fragments.DiffersAt F w w') {cs : List Char}
    (hF : x.fragments.readPath w F = .ok cs) {run : Run} {items : List Content}
    (hg : Avoids F (x.expand w stack run items).2) :
    x.expand w' stack run items = x.expand w stack run items := by
  induction stack, run, items using Expander.expand.induct w with
  | case1 stack run items ih =>
    rw [expand_eq] at hg
    rw [expand_eq, expand_eq]
    refine Attempt.perform_eq_of_agree (p := fun _ => True)
      ((x.respects_extends w stack).good Avoids.of_extends) ?_ (fun _ _ _ _ => trivial) hg
    intro src slots run _ hg
    have hgo := ((x.respects_extends w stack).attempt src slots run).goes hg.1
    exact ((x.attempted w SlotMap.fill stack _ src slots run).elsewhere hd hF ih hg).eq hgo

/-- An outcome of an attempt that was completed without reading `F`. -/
def Completes (x : Expander) (w : FileTree) (stack : List Path) (F : Path) (src : String) (slots : SlotMap)
    (o : Outcome) : Prop :=
  ∃ run, (x.attempts w stack src slots run).1 = o ∧ Avoids F (x.attempts w stack src slots run).2

/-- Attempts that were completed have the same outcomes with other files there. -/
theorem repeats (hd : x.fragments.DiffersAt F w w') {cs : List Char}
    (hF : x.fragments.readPath w F = .ok cs) :
    (x.attempts w' stack).Repeats (x.Completes w stack F) where
  settling := settling x w' stack
  stops := stops x w' stack
  framed := framed x w' stack
  repeats := by
    rintro src slots o ⟨run, rfl, hg⟩
    have hgo := ((x.respects_extends w stack).attempt src slots run).goes hg.1
    have hsame : x.attempts w' stack src slots run = x.attempts w stack src slots run :=
      ((x.attempted w SlotMap.fill stack _ src slots run).elsewhere hd hF
        (fun _ _ _ _ _ => expand_eq_of_avoids hd hF) hg).eq hgo
    have hblind : (x.attempts w' stack).Blind :=
      Attempt.blind_of_framed (framed (μ := Report.tally) x w' stack) (stops x w' stack)
    obtain ⟨ho, hover⟩ := hblind src slots run {} hgo.symm
    rw [hsame] at ho hover
    exact ⟨ho, hover.trans hg.1⟩

/-- Where an expansion stops is told by what was completed. -/
theorem tells (x : Expander) (w : FileTree) (stack : List Path) (F : Path) :
    (x.attempts w stack).Tells (Run.Spares F) (x.Completes w stack F) where
  settling := settling x w stack
  stops := stops x w stack
  done := attempts_done x w stack
  good := {
    refl := fun _ => id
    trans := fun h₁ h₂ => h₁ ∘ h₂
    attempt := fun src slots run => Run.Spares.of_course ((x.respects_course w stack).attempt src slots run)
    skip := fun run sources => Run.Spares.of_course ((x.respects_course w stack).skip run sources)
    release := fun run items => Run.Spares.of_course ((x.respects_course w stack).release run items) }
  tells src slots run hgo hg := by
    refine ⟨run, rfl, hgo, ?_⟩
    have := hg.loads
    rwa [hgo, if_neg Bool.false_ne_true] at this

end Expander

/-- What has been performed holds no include without a valid reference, if there was none and no fragment
holds one. -/
theorem Performed.valid {T : String → SlotMap → Outcome → Prop} {items items' : List Content}
    (hp : Performed T items items') (hr : ∀ src slots f, T src slots (.resolved f) → Content.Settled f)
    (hn : ∀ h ∈ Content.headsAll items, h.isInvalid = false) :
    ∀ h ∈ Content.headsAll items', h.isInvalid = false := by
  have node : ∀ {h : Head} {cs rest : List Content}, h.isInvalid = false →
      (∀ g ∈ Content.headsAll cs, g.isInvalid = false) → (∀ g ∈ Content.headsAll rest, g.isInvalid = false) →
      ∀ g ∈ Content.headsAll (.node h cs :: rest), g.isInvalid = false := by
    intro h cs rest hh hcs hrest
    rw [Content.headsAll_node, List.forall_mem_cons, List.forall_mem_append]
    exact ⟨hh, hcs, hrest⟩
  induction hp with
  | nil => simp
  | text s _ ih => simpa using ih (by simpa using hn)
  | kept _ _ _ ihc ih | aborted _ _ _ _ ihc ih =>
    exact node (hn _ (by simp)) (ihc fun g hg => hn g (by simp [hg])) (ih fun g hg => hn g (by simp [hg]))
  | failed _ _ _ _ ihc ih =>
    exact node (by simp [Head.isInvalid]) (ihc fun g hg => hn g (by simp [hg]))
      (ih fun g hg => hn g (by simp [hg]))
  | resolved _ ht _ _ _ ih =>
    exact node (by simp [Head.isInvalid, Head.isPending, Head.resolved]) (hr _ _ _ ht).isInvalid_eq_false
      (ih fun g hg => hn g (by simp [hg]))

namespace Expander

variable {x : Expander} {w w' : FileTree} {stack : List Path}

/-- An expansion leaves no pending include without a valid reference, however it ends. -/
theorem valid_expand (x : Expander) (w : FileTree) (stack : List Path) (run : Run) (items : List Content) :
    ∀ h ∈ Content.headsAll (x.expand w stack run items).1, h.isInvalid = false := by
  have hG : (x.attempts w stack).Respects fun _ _ => True → True :=
    ⟨fun _ => id, fun _ _ => id, fun _ _ _ => id, fun _ _ => id, fun _ _ => id⟩
  rw [expand_eq]
  refine (Attempt.performed_perform (T := fun _ _ o => ∀ f, o = .resolved f → Content.Settled f) hG
    (fun src slots run _ f hf => ?_) _ _ trivial).valid (fun _ _ f ht => ht f rfl) (Content.announced_spec items)
  exact (settling x w stack).resolved src slots run f hf
    (attempts_done x w stack src slots run (hf ▸ by simp))

/-- **An expansion that a fragment has ended can be gone on with.**  Let `l` be the last load of an expansion
that ended because a text is no markup, and no load before it be of the same file.  Then the text is that of
`l`, and there is a way down from the document to the directive that it struck:

· The directives on this way in which the expansion was under way stand as they were, pending, with the slots
that they bind; every other directive has been completed or is untouched.

· With another file in the place of that of `l`, whatever it holds, a second expansion of what was left ends
as an expansion of the document itself does, and leaves the same document.  The only exception is an
expansion of the document itself that is ended too, where the way leads through content that a resolved
include has released. -/
theorem expand_resumes (report fresh again : Report) {items : List Content} {f : Markup.Fault} {l : Load}
    {before : List Load}
    (ended : (x.expand w stack { report := report } items).2.fault? = some (.markup f))
    (last : (x.expand w stack { report := report } items).2.loads = l :: before)
    (spared : ∀ l' ∈ before, l'.path ≠ l.path) (differs : x.fragments.DiffersAt l.path w w') :
    Markup.parse l.source = .error f ∧
    ∃ out, Halted (x.Completes w stack l.path) out (Content.announced items)
        (x.expand w stack { report := report } items).1 ∧
      (x.expand w stack { report := report } items).2.Leaves out ∧
      (out = [] ∨ (x.expand w' stack { report := fresh } items).2.isOver = false →
        (x.expand w' stack { report := again } (x.expand w stack { report := report } items).1).1 =
            (x.expand w' stack { report := fresh } items).1 ∧
          (x.expand w' stack { report := again } (x.expand w stack { report := report } items).1).2.isOver =
            (x.expand w' stack { report := fresh } items).2.isOver) := by
  have hcourse : Run.Course x.fragments w { report := report }
      (x.expand w stack { report := report } items).2 := course_expand _ items
  obtain ⟨l', before', hloads, -, hp⟩ := hcourse.rejected rfl f ended
  obtain ⟨rfl, rfl⟩ := List.cons.inj (last.symm.trans hloads)
  have hover := Run.isOver_of_fault? ended
  have hspares : Run.Spares l.path (x.expand w stack { report := report } items).2 :=
    ⟨fun _ => ⟨f, ended⟩, by rw [hover, if_pos rfl, last]; exact spared⟩
  obtain ⟨cs, hF⟩ : ∃ cs, x.fragments.readPath w l.path = .ok cs :=
    (hcourse.reads l (last ▸ List.mem_cons_self ..)).resolve_left (by simp)
  have hvalid := valid_expand x w stack { report := report } items
  have goes : ∀ (report : Report) (items : List Content),
      (({ report := report } : Run).announce items).2.isOver = false := fun report items =>
    Run.isOver_announce _ items
  rw [expand_eq x w stack _ items] at hover hspares hvalid ⊢
  obtain ⟨out, hhalted, hleaves⟩ := (tells x w stack l.path).halted (goes report items)
    (Content.announced_spec items) hover hspares
  refine ⟨hp, out, hhalted, hleaves, fun hout => ?_⟩
  rw [expand_eq x w' stack _ items] at hout ⊢
  rw [expand_eq x w' stack { report := again }, Content.announced_eq_self hvalid]
  exact hhalted.resumes (repeats differs hF) (Content.announced_spec items) (goes fresh items) (goes again _) hout

/-! ### Examples -/

/-- The files of a project in which the texts of `f` and `g` are no markup. -/
def brokenFiles : FileTree :=
  { FileTree.ofEntries [(["src"], .directory),
      (["src", "b"], .file ⟨"<b><yield name=\"x\"></yield></b>".toUTF8.toList, 0, 0⟩),
      (["src", "c"], .file ⟨"C".toUTF8.toList, 0, 1⟩),
      (["src", "f"], .file ⟨"<![x[y]]>".toUTF8.toList, 0, 2⟩),
      (["src", "g"], .file ⟨"<![x[y]]>".toUTF8.toList, 0, 3⟩)] with fresh := 4 }

/-- The files with another text in `f`. -/
def mendedFiles : FileTree := brokenFiles.put ["src", "f"] (.file ⟨"F".toUTF8.toList, 0, 4⟩)

theorem differs_mended : sampleExpander.fragments.DiffersAt (Path.ofLocation ["src", "f"]) brokenFiles mendedFiles :=
  have hold : brokenFiles.at? ["src", "f"] = some (.file ⟨"<![x[y]]>".toUTF8.toList, 0, 2⟩) := rfl
  sampleExpander.fragments.differsAt_put _ (by decide) hold

/-- A pending include. -/
def sampleInclude (src : String) (cs : List Content) : Content :=
  .node { tag := some "include", attrs := [("src", .text src)] } cs

/-- A page with a fragment in the slot of another. -/
def slottedPage : List Content :=
  [sampleInclude "b" [.node { tag := some "yield", attrs := [("name", .text "x")] } [sampleInclude "f" []]],
    sampleInclude "c" []]

/-- The load of the text that is no markup. -/
def brokenLoad : Load := ⟨[], "f", Path.ofLocation ["src", "f"], [], "<![x[y]]>"⟩

/-- The slotted page is gone on with when `f` has been mended. -/
theorem slotted_page_resumed :
    (sampleExpander.expand brokenFiles [] {} slottedPage).2.fault? =
      some (.markup (.unknownSection "x")) ∧
    (sampleExpander.expand brokenFiles [] {} slottedPage).2.loads = [brokenLoad] ∧
    Markup.render (sampleExpander.expand brokenFiles [] {} slottedPage).1 = Markup.render slottedPage ∧
    (sampleExpander.expand mendedFiles [] {} (sampleExpander.expand brokenFiles [] {} slottedPage).1).1 =
      (sampleExpander.expand mendedFiles [] {} slottedPage).1 ∧
    Markup.render (sampleExpander.expand mendedFiles [] {} slottedPage).1 = "<b>F</b>C" := by
  have hended : (sampleExpander.expand brokenFiles [] {} slottedPage).2.fault? =
      some (.markup (.unknownSection "x")) := by decide +kernel
  have hlast : (sampleExpander.expand brokenFiles [] {} slottedPage).2.loads = [brokenLoad] := by
    decide +kernel
  have hgoes : (sampleExpander.expand mendedFiles [] {} slottedPage).2.isOver = false := by decide +kernel
  obtain ⟨-, out, -, -, hresumes⟩ :=
    expand_resumes {} {} {} hended hlast (by simp) differs_mended
  exact ⟨hended, hlast, by decide +kernel, (hresumes (.inr hgoes)).1, by decide +kernel⟩

/-- A page that has two fragments among the ignored children of an include. -/
def strewnPage : List Content :=
  [sampleInclude "b" [sampleInclude "f" [], sampleInclude "g" []], sampleInclude "c" []]

/-- Not every expansion can be gone on with to the same end.  Here `f` is struck after its include has been
resolved and its children released.  The second expansion does not meet them again, and ends well; that of
the page itself goes on to `g`, and is ended there. -/
theorem strewn_page_not_resumed :
    (sampleExpander.expand brokenFiles [] {} strewnPage).2.fault? =
      some (.markup (.unknownSection "x")) ∧
    (sampleExpander.expand brokenFiles [] {} strewnPage).2.loads.map Load.path =
      [Path.ofLocation ["src", "f"], Path.ofLocation ["src", "b"]] ∧
    sampleExpander.fragments.DiffersAt (Path.ofLocation ["src", "f"]) brokenFiles mendedFiles ∧
    (sampleExpander.fragments.read mendedFiles "f").toOption = some "F" ∧
    (∀ slots, Markup.parse (AttributeSlots.rewrite slots "F") = .ok [.text "F"]) ∧
    Markup.render (sampleExpander.expand mendedFiles [] {}
      (sampleExpander.expand brokenFiles [] {} strewnPage).1).1 = "<b></b>C" ∧
    Markup.render (sampleExpander.expand mendedFiles [] {} strewnPage).1 =
      "<b></b><include src=\"c\"></include>" := by
  refine ⟨by decide +kernel, by decide +kernel, differs_mended, by decide +kernel, fun slots => ?_,
    by decide +kernel, by decide +kernel⟩
  rw [show AttributeSlots.rewrite slots "F" = "F" from rfl]
  decide +kernel

end Expander
end PageComposer
