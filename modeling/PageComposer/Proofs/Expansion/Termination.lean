/-
# Expansion ends

The recursion of an expansion can be followed for a number of levels, with anything at all put where it
would go deeper (`SlotMap.fillWithin`, `Expander.expandWithin`). If no binding of the document holds a
placeholder, what is put there does not matter as soon as the number is greater than that of the levels
(`Expander.process_ends`): the recursion never goes that deep.

| recursion | goes deeper |
| --- | --- |
| substitution | into what it has inserted, with the same slots |
| expansion | into a fragment, with its path on the stack |
-/

import PageComposer.Proofs.Expansion.Trail

namespace PageComposer

namespace Attempt

variable {A B : Attempt}

/-- If fragments hold no placeholder, a document without placeholders stays without. -/
theorem closed_perform (hA : ∀ src slots run f, (A src slots run).1 = .resolved f →
    Content.closed false f = true) (run : Run) {items : List Content} {binding : Bool}
    (hc : Content.closed binding items = true) :
    Content.closed binding (perform A run items).1 = true := by
  have hG : A.Respects fun _ _ => True → True :=
    ⟨fun _ => id, fun _ _ => id, fun _ _ _ => id, fun _ _ => id, fun _ _ => id⟩
  have hp := performed_perform (T := fun _ _ o => ∀ f, o = .resolved f → Content.closed false f = true)
    hG (fun src slots run _ f hf => hA src slots run f hf) run items trivial
  exact hp.closed (fun _ _ f ht => ht f rfl) hc

theorem closed_performSlots (hA : ∀ src slots run f, (A src slots run).1 = .resolved f →
    Content.closed false f = true) (run : Run) {slots : SlotMap} (hs : slots.Closed) :
    (performSlots A run slots).1.Closed := by
  induction slots generalizing run with
  | nil => simpa [performSlots] using hs
  | cons s rest ih =>
    obtain ⟨name, content⟩ := s
    rw [performSlots]
    intro s hmem
    rcases List.mem_cons.1 hmem with rfl | hmem
    · exact closed_perform hA run (hs _ (List.mem_cons_self ..))
    · exact ih _ (fun s hs' => hs s (List.mem_cons_of_mem _ hs')) s hmem

/-- **Attempts that agree on slots without placeholders make the same walk** over a document in which no
include binds a placeholder. -/
theorem perform_congr (hA : ∀ src slots run f, (A src slots run).1 = .resolved f →
    Content.closed false f = true)
    (hAB : ∀ src slots run, slots.Closed → A src slots run = B src slots run) (run : Run)
    {items : List Content} (hb : Content.bindingsClosed items = true) :
    perform A run items = perform B run items := by
  -- below a directive: its slots hold no placeholder, neither before nor after they are performed
  have directive : ∀ {h : Head} {src : String} {cs : List Content} {run mid : Run} {slots : SlotMap},
      h.directive? = some src → Content.bindingsClosedItem (.node h cs) = true →
      performSlots A run (SlotMap.ofChildren cs) = (slots, mid) →
      Content.bindingsClosed cs = true ∧
        (∀ s ∈ SlotMap.ofChildren cs, Content.bindingsClosed s.2 = true) ∧
        B src slots mid = A src slots mid := by
    intro h src cs run mid slots hd hb hslots
    simp only [Content.bindingsClosedItem, Head.isInclude_of_directive? hd, Bool.not_true,
      Bool.false_or, Bool.and_eq_true] at hb
    have hs := SlotMap.closed_ofChildren hb.1
    have hclosed := closed_performSlots hA run hs
    rw [hslots] at hclosed
    exact ⟨hb.2, fun s hmem => Content.bindingsClosed_of_closed (hs s hmem), (hAB src slots mid hclosed).symm⟩
  have node : ∀ {item : Content} {rest : List Content},
      Content.bindingsClosed (item :: rest) = true → Content.bindingsClosedItem item = true ∧
        Content.bindingsClosed rest = true := by
    intro item rest hb
    simpa [Content.bindingsClosed] using hb
  refine ((walk_induction A
    (fun run item r => Content.bindingsClosedItem item = true → performItem B run item = r)
    (fun slots run children r => Content.bindingsClosed children = true →
      performOthers B slots run children = r)
    (fun run slots r => (∀ s ∈ slots, Content.bindingsClosed s.2 = true) → performSlots B run slots = r)
    (fun run items r => Content.bindingsClosed items = true → perform B run items = r)
    ?text ?kept ?aborted ?failed ?resolved ?childless ?loser ?winner ?unbound ?slot ?nil ?cons).2.2.2
    run items hb).symm
  case text =>
    intro run s _
    rw [performItem]
  case kept =>
    intro run h cs hd ih hb
    simp only [Content.bindingsClosedItem, Bool.and_eq_true] at hb
    rw [performItem_kept hd, ih hb.2]
  case aborted =>
    intro run h cs src slots mid after hd hs ha ihs hb
    obtain ⟨-, hslots, hB⟩ := directive hd hb hs
    simp only [performItem, hd, ihs hslots, hB, ha]
  case failed =>
    intro run h cs src slots mid after hd hs ha ihs iho hb
    obtain ⟨hcs, hslots, hB⟩ := directive hd hb hs
    simp only [performItem, hd, ihs hslots, hB, ha, iho hcs]
  case resolved =>
    intro run h cs src slots mid f after hd hs ha ihs iho hb
    obtain ⟨hcs, hslots, hB⟩ := directive hd hb hs
    simp only [performItem, hd, ihs hslots, hB, ha, iho hcs]
  case childless =>
    intro slots run _
    rw [performOthers]
  case loser =>
    intro slots run item rest hc ihi ih hb
    rw [performOthers_of_loser slots run hc, ihi (node hb).1, ih (node hb).2]
  case winner =>
    intro slots run h cs rest name hbind hlast ih hb
    rw [performOthers_of_winner slots run hbind hlast, ih (node hb).2]
  case unbound =>
    intro run _
    rw [performSlots]
  case slot =>
    intro run name content rest ihc ih hb
    rw [List.forall_mem_cons] at hb
    rw [performSlots, ihc hb.1, ih hb.2]
  case nil =>
    intro run _
    rw [perform]
  case cons =>
    intro run item rest ihi ih hb
    rw [perform, ihi (node hb).1, ih (node hb).2]

end Attempt

/-- Substitution by slots in which what is inserted is walked again, with the same slots, for `n` levels;
`beyond` takes the place of deeper walks. -/
def SlotMap.fillWithin (beyond : SlotMap → List Content → Filled) :
    Nat → SlotMap → List Content → Filled
  | 0, slots, items => beyond slots items
  | n + 1, slots, items =>
    Content.fillAll (fun name => (slots.get? name).map fun content =>
      fillWithin beyond n slots (Content.copyAll content)) false items

/-- Two levels of substitution are enough for slots without placeholders. -/
theorem SlotMap.fillWithin_eq_fill (beyond : SlotMap → List Content → Filled) {slots : SlotMap}
    (hs : slots.Closed) {n : Nat} (hn : 1 < n) (items : List Content) :
    fillWithin beyond n slots items = slots.fill items := by
  obtain ⟨n, rfl⟩ : ∃ k, n = k + 2 := ⟨n - 2, by omega⟩
  rw [fillWithin, fill_eq]
  congr 1
  funext name
  cases hc : slots.get? name with
  | none => rfl
  | some content =>
    have hcl := hs _ (mem_of_get? hc)
    rw [Option.map_some, Option.map_some, fillWithin, fill_copy hcl, Content.fillAll_copy_of_closed _ hcl]

namespace Expander

variable {x : Expander} {w : FileTree}

/-- Attempts agree if they fill and enter alike what may be entered. -/
theorem attempt_congr {fill fill' : SlotMap → List Content → Filled} {stack : List Path}
    {descend descend' : Descent w stack} {src : String} {slots : SlotMap} {run : Run}
    (h : ∀ path cs, x.Admits w stack src path → x.fragments.readPath w path = .ok cs →
      ∀ items, fill slots items = fill' slots items ∧ ∀ hfile hnew run,
        descend path hfile hnew run (fill slots items).content =
          descend' path hfile hnew run (fill slots items).content) :
    x.attempt w fill stack descend src slots run = x.attempt w fill' stack descend' src slots run := by
  unfold attempt
  split
  · rfl
  · split
    · rfl
    · rename_i path hr
      split
      · rfl
      · split
        · rfl
        · rename_i hnew hdeep
          have ha : x.Admits w stack src path := ⟨hr, by simpa using hnew, by omega⟩
          split
          · rfl
          · rfl
          · rename_i cs hread
            dsimp only
            split
            · rfl
            · rename_i items hp
              obtain ⟨hfill, hd⟩ := h path cs ha hread items
              rw [hd, hfill]

/-- What takes the place of recursion that goes too deep. -/
structure Beyond where
  fill : SlotMap → List Content → Filled
  expand : List Path → Run → List Content → List Content × Run

/-- Expansion, followed for `n` levels. -/
def expandWithin (x : Expander) (w : FileTree) (beyond : Beyond) :
    Nat → List Path → Run → List Content → List Content × Run
  | 0, stack, run, items => beyond.expand stack run items
  | n + 1, stack, run, items =>
    let announced := run.announce items
    Attempt.perform (x.attempt w (SlotMap.fillWithin beyond.fill (n + 1)) stack
      fun path _ _ run items => expandWithin x w beyond n (stack ++ [path]) run items)
      announced.2 announced.1

/-- The markup of a document after expansion, followed for `n` levels. -/
def processWithin (x : Expander) (w : FileTree) (beyond : Beyond) (n : Nat)
    (document markup : String) : Option String × Run :=
  processBy (x.expandWithin w beyond n []) document markup

/-- **On a trail, expansion does not go deeper than the levels.** -/
theorem expandWithin_eq_expand (beyond : Beyond) {n : Nat} {stack : List Path}
    (ht : x.Trail w stack) (hn : x.levels w < n + stack.length) (run : Run) {items : List Content}
    (hb : Content.bindingsClosed items = true) :
    x.expandWithin w beyond n stack run items = x.expand w stack run items := by
  induction n generalizing stack run items with
  | zero =>
    have := ht.length_le
    omega
  | succ n ih =>
    -- what is entered has been filled, and stands one level deeper
    have enters : ∀ {src path cs} (slots : SlotMap), x.Admits w stack src path →
        x.fragments.readPath w path = .ok cs → slots.Closed → ∀ items,
        SlotMap.fillWithin beyond.fill (n + 1) slots items = slots.fill items ∧ ∀ run : Run,
          x.expandWithin w beyond n (stack ++ [path]) run (slots.fill items).content =
            x.expand w (stack ++ [path]) run (slots.fill items).content := by
      intro src path cs slots ha hread hs items
      have ht' := ht.snoc ha hread
      have hlen := ht'.length_le
      rw [List.length_append, List.length_singleton] at hlen
      refine ⟨SlotMap.fillWithin_eq_fill beyond.fill hs (by omega) items, fun run => ?_⟩
      exact ih ht' (by rw [List.length_append, List.length_singleton]; omega) run
        (Content.bindingsClosed_of_closed (slots.closed_fill items))
    rw [expand_eq, expandWithin, run.announce_eq]
    refine (Attempt.perform_congr (fun src slots run f hf => ?_) (fun src slots run hs => ?_) _
      (by simpa using hb)).symm
    · exact (x.attempted w SlotMap.fill stack (x.descent w stack) src slots run).closed hf
    · refine attempt_congr fun path cs ha hread items => ?_
      obtain ⟨hfill, hx⟩ := enters slots ha hread hs items
      exact ⟨hfill.symm, fun _ _ run => (hx run).symm⟩

/-- **Expansion ends.**  If no binding of a document holds a placeholder:

· the recursion of processing it is no deeper than there are levels, which are neither more than the
greatest depth nor more than there are readable files: what it would do beyond does not matter.

· With every load, the stack and the path loaded are distinct paths of readable files; those on the stack
have been loaded; the stack is shorter than the greatest depth, and with the path there are no more than
the levels. -/
theorem process_ends (x : Expander) (w : FileTree) (document markup : String)
    (bindings : ∀ items, Markup.parse markup = .ok items → Content.bindingsClosed items = true) :
    (∀ (beyond : Beyond) (n : Nat), x.levels w < n →
      x.processWithin w beyond n document markup = x.process w document markup) ∧
    ∀ l ∈ (x.process w document markup).2.loads,
      x.fragments.resolve w l.reference = .ok l.path ∧
      x.fragments.readPath w l.path = .ok l.text.toList ∧
      (l.stack ++ [l.path]).Nodup ∧
      (∀ p ∈ l.stack, ∃ l' ∈ (x.process w document markup).2.loads, l'.path = p) ∧
      (l.stack.length : Int) < x.maxDepth ∧
      (l.stack ++ [l.path]).length ≤ x.levels w := by
  constructor
  · intro beyond n hn
    unfold processWithin process processBy
    dsimp only
    split
    · rfl
    · rename_i items hp
      rw [expandWithin_eq_expand beyond (Trail.nil x w) (by simpa using hn) _ (bindings items hp)]
  · have htr : Traced x w [] { report := { document := document } } (x.process w document markup).2 := by
      unfold process processBy
      dsimp only
      split
      · exact .of_loads_eq rfl
      · rename_i items _
        have hx := traced_expand (Trail.nil x w) { report := { document := document } } items
        split
        · exact hx
        · exact hx
    intro l hl
    have hs : x.Sound w l := (htr.sound l hl).resolve_left (by simp)
    have hloaded := (htr.loaded l hl).resolve_left (by simp)
    exact ⟨hs.resolves, hs.reads, hs.trail.nodup, fun p hp => (hloaded p hp).resolve_left (by simp),
      hs.shallow, hs.trail.length_le⟩

/-- Processing the example ends, whatever would be done beyond its two levels. -/
theorem sample_ends :
    Markup.parse sampleMarkup = .ok sampleDocument ∧ Content.bindingsClosed sampleDocument = true ∧
      sampleExpander.levels sampleFiles = 2 ∧ ∀ beyond : Beyond,
        sampleExpander.processWithin sampleFiles beyond 3 "a.html" sampleMarkup =
          sampleExpander.process sampleFiles "a.html" sampleMarkup := by
  have hb : Content.bindingsClosed sampleDocument = true := by decide
  have hlevels : sampleExpander.levels sampleFiles = 2 := by decide +kernel
  refine ⟨parse_sample, hb, hlevels, fun beyond => ?_⟩
  refine (process_ends sampleExpander sampleFiles "a.html" sampleMarkup ?_).1 beyond 3 (by omega)
  intro items hp
  obtain rfl := Except.ok.inj (parse_sample.symm.trans hp)
  exact hb

end Expander
end PageComposer
