/-
# Every directive is accounted for

An expansion that ends without a fault has accounted for each pending include that it met, in the document
or in a fragment, by one entry of its report (`Expander.every_include_accounted`):

| entry | accounts for |
| --- | --- |
| warning | an include without a valid reference |
| error | a directive that failed |
| include | a directive that was resolved, and the load that was made for it |

A fragment is met with its placeholders filled. What fills them has been expanded before, so none of its
includes is pending and it brings no entry, however often it is used (`SlotMap.pendings_fill`). Content that
is spliced into an attribute value is text of the fragment: an include that the fragment shows there is one
of the fragment.
-/

import Mathlib.Algebra.Ring.Int.Defs
import Mathlib.Algebra.Ring.Nat
import PageComposer.Proofs.Expansion.Tally

namespace PageComposer

/-! ### What a load brings -/

namespace Content

/-- The number of pending includes in a content list. -/
def pendings (items : List Content) : Nat := (headsAll items).countP Head.isPending

/-- A pending include is a directive, or there is a warning about it. -/
theorem pendings_eq (items : List Content) :
    pendings items = (directives items).length + (complaints items).length := by
  unfold pendings directives complaints
  induction headsAll items with
  | nil => rfl
  | cons h rest ih =>
    rw [List.countP_cons, ih, List.filterMap_cons, List.filterMap_cons]
    have hh : (if h.isPending = true then 1 else 0) =
        h.directive?.toList.length + h.complaint?.toList.length := by
      unfold Head.directive? Head.complaint? Head.isInvalid Head.isPending Head.source?
      cases h.settled <;> cases h.isInclude <;> cases h.textAttr? "src" <;> simp
    cases hd : h.directive? <;> cases hc : h.complaint? <;> simp_all <;> omega

theorem directives_announced (items : List Content) : directives (announced items) = directives items := by
  unfold directives
  rw [headsAll_announced, List.filterMap_map]
  refine List.filterMap_congr fun h _ => ?_
  by_cases hi : h.isInvalid = true
  · have hs : h.announced = h.settle := if_pos hi
    simp only [Head.isInvalid, Bool.and_eq_true, Option.isNone_iff_eq_none] at hi
    simp [hs, Head.directive?, Head.settle, hi.2]
  · have hs : h.announced = h := if_neg hi
    simp [hs]

theorem pendings_of_settled {items : List Content} (hs : Settled items) : pendings items = 0 := by
  refine List.countP_eq_zero.2 fun h hh => ?_
  cases hi : h.isInclude with
  | false => simp [Head.isPending, hi]
  | true => simp [Head.isPending, hs h hh hi]

@[simp] theorem pendings_text (s : String) (rest : List Content) :
    pendings (.text s :: rest) = pendings rest := by
  simp [pendings]

@[simp] theorem pendings_node (h : Head) (cs rest : List Content) :
    pendings (.node h cs :: rest) =
      (if h.isPending then 1 else 0) + pendings cs + pendings rest := by
  simp only [pendings, headsAll_node, List.countP_cons, List.countP_append]
  omega

/-- What is bound brings no pending include if it holds none, whatever it is. -/
theorem pendings_fillAll {bound bound' : String → Option Filled}
    (hb : ∀ name, (bound name).map (fun f => pendings f.content) =
      (bound' name).map fun f => pendings f.content)
    (binding : Bool) (items : List Content) :
    pendings (fillAll bound binding items).content = pendings (fillAll bound' binding items).content := by
  induction items using list_induction generalizing binding with
  | nil => rfl
  | text s rest ih => simpa using ih binding
  | node h cs rest ihc ih =>
    by_cases hk : (binding || !h.isYield) = true
    · rw [fillAll_kept bound hk, fillAll_kept bound' hk]
      simp [ihc, ih]
    · obtain ⟨rfl, hy⟩ : binding = false ∧ h.isYield = true := by simpa using hk
      rw [fillAll_placeholder bound hy, fillAll_placeholder bound' hy]
      have hs : pendings (standIn bound h.placeholder (fillAll bound false cs)).content =
          pendings (standIn bound' h.placeholder (fillAll bound' false cs)).content := by
        unfold standIn
        cases hn : h.placeholder.name with
        | none => cases h.placeholder.isOptional <;> simp [ihc]
        | some name =>
          have := hb name
          cases hf : bound name <;> cases hf' : bound' name <;>
            cases h.placeholder.isOptional <;> simp_all
      simp [hs, ih]

end Content

namespace SlotMap

/-- The slots with nothing in them. -/
def emptied (slots : SlotMap) : SlotMap := slots.map fun s => (s.1, [])

theorem get?_emptied (slots : SlotMap) (name : String) :
    slots.emptied.get? name = (slots.get? name).map fun _ => [] := by
  induction slots with
  | nil => rfl
  | cons s rest ih =>
    have hcons : emptied (s :: rest) = (s.1, []) :: emptied rest := rfl
    rw [hcons, get?_cons, get?_cons, ih]
    split <;> rfl

/-- Substitution leaves no include pending where there was none. -/
theorem settled_fill {slots : SlotMap} {items : List Content} (hs : ∀ s ∈ slots, Content.Settled s.2)
    (hi : Content.Settled items) : Content.Settled (slots.fill items).content :=
  slots.forall_heads_fill (fun _ _ hi => by cases hi) (fun _ hp => hp) items hs hi

/-- **Content without pending includes brings none**, in however many places it is inserted. -/
theorem pendings_fill {slots : SlotMap} (hs : ∀ s ∈ slots, Content.Settled s.2) (items : List Content) :
    Content.pendings (slots.fill items).content = Content.pendings (slots.emptied.fill items).content := by
  rw [fill_eq, fill_eq]
  refine Content.pendings_fillAll (fun name => ?_) false items
  rw [get?_emptied]
  cases hc : slots.get? name with
  | none => rfl
  | some content =>
    have hcopy : Content.Settled (Content.copyAll content) := by
      intro g hg
      rw [Content.headsAll_copyAll] at hg
      obtain ⟨h, hh, rfl⟩ := List.mem_map.1 hg
      exact hs _ (mem_of_get? hc) h hh
    have hrest : ∀ s ∈ slots.erase name, Content.Settled s.2 :=
      fun s hs' => hs s (List.mem_filter.1 hs').1
    have hnil : ((slots.emptied.erase name).fill (Content.copyAll [])).content = [] := by
      rw [fill_eq]; rfl
    simp only [Option.map_some]
    rw [Content.pendings_of_settled (settled_fill hrest hcopy), hnil]
    rfl

end SlotMap

namespace Load

/-- The text of a load as a document, before substitution. -/
def fragment (l : Load) : List Content := (Markup.parse l.source).toOption.getD []

/-- The fragment right after substitution. -/
def filled (l : Load) : Filled := l.slots.fill l.fragment

/-- The references that were loaded for directives in the fragments of `stack`. -/
def references (stack : List Path) (loads : List Load) : Multiset String :=
  (loads.filter fun l => l.stack = stack).map reference

/-- The references of the directives in the fragments that were loaded into `stack`. -/
def inner (stack : List Path) (loads : List Load) : Multiset String :=
  ((loads.filter fun l => l.stack ++ [l.path] = stack).map fun l =>
    (Content.directives l.filled.content : Multiset String)).sum

theorem references_append (stack : List Path) (ls ms : List Load) :
    references stack (ls ++ ms) = references stack ls + references stack ms := by
  simp [references]

theorem inner_append (stack : List Path) (ls ms : List Load) :
    inner stack (ls ++ ms) = inner stack ls + inner stack ms := by
  simp [inner]

theorem references_singleton (stack : List Path) (l : Load) :
    references stack [l] = if stack = l.stack then {l.reference} else 0 := by
  by_cases he : stack = l.stack
  · simp [references, he]
  · simp [references, he, Ne.symm he]

theorem inner_singleton (stack : List Path) (l : Load) :
    inner stack [l] =
      if stack = l.stack ++ [l.path] then (Content.directives l.filled.content : Multiset String) else 0 := by
  by_cases he : stack = l.stack ++ [l.path]
  · simp [inner, he]
  · simp [inner, he, Ne.symm he]

end Load

/-! ### Reports -/

namespace Run

/-- The number of entries of a report. -/
def entries (run : Run) : Nat :=
  run.report.includes.length + run.report.errors.length + run.report.warnings.length

@[simp] theorem report_skip (run : Run) (sources : List String) : (run.skip sources).report = run.report :=
  skip_keeps Run.report (fun _ _ _ => rfl) run sources

@[simp] theorem report_resolved (run : Run) (names : List (Option String)) :
    (run.resolved names).report = run.report.addPlaceholders names.length :=
  congrArg (Report.addPlaceholders · _) (remarks_keep Run.report (fun _ _ _ => rfl) .slots _ run names)

end Run

/-! ### What is accounted for -/

/-- A run that another goes on with, after `n` pending includes in the fragments of `stack`, `sources` of
them directives: what has been loaded between them, with everything reported on it. -/
structure Accounted (stack : List Path) (n : Nat) (sources : Multiset String) (run : Run)
    (loads : List Load) (run' : Run) : Prop where
  loaded : run'.loads = loads ++ run.loads
  entries : run'.entries = run.entries + n + (loads.map fun l => Content.pendings l.filled.content).sum
  includes : run'.report.includes.Perm (run.report.includes ++ loads.map Load.reference)
  placeholders : run'.report.placeholders =
    run.report.placeholders + (loads.map fun l => (l.filled.resolved.length : Int)).sum
  parsed : ∀ l ∈ loads, Markup.parse l.source = .ok l.fragment
  slots : ∀ l ∈ loads, ∀ s ∈ l.slots, Content.Settled s.2
  once : ∀ inside, Load.references inside loads ≤
    (if inside = stack then sources else 0) + Load.inner inside loads

namespace Accounted

variable {stack : List Path} {n m : Nat} {s t : Multiset String} {a b c : Run} {ls ms : List Load}

/-- Nothing is accounted for by nothing. -/
theorem of_report_eq (hl : b.loads = a.loads) (hr : b.report = a.report) : Accounted stack 0 0 a [] b where
  loaded := hl
  entries := by simp [Run.entries, hr]
  includes := by simp [hr]
  placeholders := by simp [hr]
  parsed := by simp
  slots := by simp
  once inside := Multiset.zero_le _

theorem trans (h₁ : Accounted stack n s a ls b) (h₂ : Accounted stack m t b ms c) :
    Accounted stack (n + m) (s + t) a (ms ++ ls) c where
  loaded := by rw [h₂.loaded, h₁.loaded, List.append_assoc]
  entries := by
    rw [h₂.entries, h₁.entries, List.map_append, List.sum_append]
    omega
  includes := by
    refine h₂.includes.trans ((h₁.includes.append_right _).trans ?_)
    rw [List.map_append, List.append_assoc]
    exact (List.perm_append_comm).append_left _
  placeholders := by
    rw [h₂.placeholders, h₁.placeholders, List.map_append, List.sum_append]
    omega
  parsed l hl := (List.mem_append.1 hl).elim (h₂.parsed l) (h₁.parsed l)
  slots l hl := (List.mem_append.1 hl).elim (h₂.slots l) (h₁.slots l)
  once inside := by
    rw [Load.references_append, Load.inner_append]
    refine (add_le_add (h₂.once inside) (h₁.once inside)).trans (le_of_eq ?_)
    split
    · rw [add_add_add_comm, add_comm t s]
    · rw [add_add_add_comm, add_zero]

/-- A directive that fails is accounted for by an error. -/
theorem fail (src message : String) : Accounted stack 1 {src} a [] (a.fail message) where
  loaded := rfl
  entries := by simp [Run.entries, Run.fail, Run.note, Report.addError]; omega
  includes := by simp [Run.fail, Report.addError]
  placeholders := by simp [Run.fail, Report.addError]
  parsed := by simp
  slots := by simp
  once inside := Multiset.zero_le _

/-- A directive that is resolved is accounted for by an include, and what its fragment brings is. -/
theorem resolve {l : Load} (hs : l.stack = stack) (hp : Markup.parse l.source = .ok l.fragment)
    (hslots : ∀ s ∈ l.slots, Content.Settled s.2)
    (h : Accounted (stack ++ [l.path]) (Content.pendings l.filled.content)
      (Content.directives l.filled.content) ((a.load l).resolved l.filled.resolved) ls b) :
    Accounted stack 1 {l.reference} a (ls ++ [l]) (b.included l.reference) where
  loaded := by
    have := h.loaded
    rw [(Run.like_resolved _ _).loads] at this
    rw [List.append_assoc]
    exact this
  entries := by
    have hb : (b.included l.reference).entries = b.entries + 1 := by
      simp [Run.entries, Run.included, Report.addInclude]; omega
    have ha : ((a.load l).resolved l.filled.resolved).entries = a.entries := by
      simp [Run.entries, Run.load, Run.debug, Run.note, Report.addPlaceholders]
    rw [hb, h.entries, ha]
    simp
    omega
  includes := by
    have hi := h.includes
    rw [Run.report_resolved] at hi
    have hi' := List.Perm.append_right [l.reference] hi
    simpa [Run.included, Report.addInclude, Run.load, Run.debug, Run.note, Report.addPlaceholders] using hi'
  placeholders := by
    have hi := h.placeholders
    rw [Run.report_resolved] at hi
    have hb : (b.included l.reference).report.placeholders = b.report.placeholders := rfl
    have ha : ((a.load l).report.addPlaceholders l.filled.resolved.length).placeholders =
        a.report.placeholders + l.filled.resolved.length := rfl
    rw [hb, hi, ha]
    simp
    omega
  parsed l' hl' := by
    rcases List.mem_append.1 hl' with hl' | hl'
    · exact h.parsed l' hl'
    · exact List.mem_singleton.1 hl' ▸ hp
  slots l' hl' := by
    rcases List.mem_append.1 hl' with hl' | hl'
    · exact h.slots l' hl'
    · exact List.mem_singleton.1 hl' ▸ hslots
  once inside := by
    subst hs
    rw [Load.references_append, Load.inner_append, Load.references_singleton, Load.inner_singleton]
    refine (add_le_add (h.once inside) le_rfl).trans (le_of_eq ?_)
    rw [add_comm, add_comm _ (Load.inner inside ls)]

/-- A complaint is accounted for by a warning. -/
theorem announce {items : List Content} (h : Accounted stack n s (a.announce items).2 ls b) :
    Accounted stack (n + (Content.complaints items).length) s a ls b where
  loaded := by rw [h.loaded, Run.loads_announce]
  entries := by
    rw [h.entries]
    simp only [Run.entries, Run.report_announce, List.length_append]
    omega
  includes := by simpa [Run.report_announce] using h.includes
  placeholders := by simpa [Run.report_announce] using h.placeholders
  parsed := h.parsed
  slots := h.slots
  once := h.once

end Accounted

/-- What is accounted for between runs, unless the expansion has ended. -/
structure Audited (stack : List Path) (sources : Multiset String) (run run' : Run) : Prop where
  goes : run'.isOver = false → run.isOver = false
  accounted : run'.isOver = false → ∃ loads, Accounted stack (Multiset.card sources) sources run loads run'

namespace Audited

variable {stack : List Path} {s t : Multiset String} {a b c : Run}

theorem trans (h₁ : Audited stack s a b) (h₂ : Audited stack t b c) : Audited stack (s + t) a c where
  goes hc := h₁.goes (h₂.goes hc)
  accounted hc := by
    obtain ⟨ms, hms⟩ := h₂.accounted hc
    obtain ⟨ls, hls⟩ := h₁.accounted (h₂.goes hc)
    rw [Multiset.card_add]
    exact ⟨_, hls.trans hms⟩

theorem of_like (hl : a.Like b) (hr : b.report = a.report) : Audited stack 0 a b where
  goes hb := hl.extends.goes hb
  accounted _ := ⟨[], .of_report_eq hl.loads hr⟩

/-- Where an expansion has ended, nothing has to be accounted for. -/
theorem of_over (hg : b.isOver = false → a.isOver = false) (ho : b.isOver = true) : Audited stack s a b where
  goes := hg
  accounted hb := by rw [ho] at hb; cases hb

end Audited

namespace Expander

variable {x : Expander} {w : FileTree}

/-- The directives of expansions count. -/
theorem settling (x : Expander) (w : FileTree) (stack : List Path) :
    (x.attempt w SlotMap.fill stack (x.descent w stack)).Settling where
  goes := (x.respects_extends w stack).good Run.Extends.goes
  aborted src slots run ha := by
    have h := x.attempted w SlotMap.fill stack (x.descent w stack) src slots run
    rw [ha] at h
    generalize (x.attempt w SlotMap.fill stack (x.descent w stack) src slots run).2 = run' at h ⊢
    cases h with
    | ended ho | broken _ _ _ _ _ _ ho => exact ho
    | unresolved _ | unusable _ _ _ | rejected _ _ _ => rfl
  resolved src slots run f hf hgoes := by
    have h := x.attempted w SlotMap.fill stack (x.descent w stack) src slots run
    rw [hf] at h
    generalize (x.attempt w SlotMap.fill stack (x.descent w stack) src slots run).2 = run' at h hgoes ⊢
    cases h with
    | entered ha hread hp hfile hnew hr ho =>
      rw [hr] at ho ⊢
      exact settled_expand _ _ _ ho

/-- An attempt is accounted for, if what it enters is. -/
theorem Attempted.audited {stack : List Path} {src : String} {slots : SlotMap} {run run' : Run}
    {o : Outcome} (hs : run.isOver = false → ∀ s ∈ slots, Content.Settled s.2)
    (hd : ∀ path, path ∈ w.filePaths → stack.contains path = false → ∀ (run : Run) items,
      (x.expand w (stack ++ [path]) run items).2.isOver = false →
      ∃ loads, Accounted (stack ++ [path]) (Content.pendings items) (Content.directives items) run loads
        (x.expand w (stack ++ [path]) run items).2)
    (h : Attempted x w SlotMap.fill stack (x.descent w stack) src slots run o run') :
    Audited stack {src} run run' := by
  have hext := h.extends fun path _ _ run items => x.expand_extends w (stack ++ [path]) run items
  cases h with
  | ended ho | broken _ _ _ _ _ _ ho => exact .of_over hext.goes ho
  | unresolved _ | unusable _ _ _ | rejected _ _ _ => exact .of_over hext.goes rfl
  | circular _ _ | deep _ _ _ | unreadable _ _ => exact ⟨id, fun _ => ⟨[], .fail src _⟩⟩
  | @entered path cs items ha hread hp hfile hnew r hr ho =>
    refine ⟨hext.goes, fun hgoes => ?_⟩
    let l : Load := ⟨stack, src, path, slots, String.ofList cs⟩
    have hfragment : l.fragment = items := by rw [Load.fragment, hp]; rfl
    have hfilled : l.filled = slots.fill items := by rw [Load.filled, hfragment]
    have hgoes' := ho
    rw [hr, ← hfilled] at hgoes'
    obtain ⟨loads, hl⟩ := hd path hfile hnew _ _ hgoes'
    have hentered : Accounted (stack ++ [l.path]) (Content.pendings l.filled.content)
        (Content.directives l.filled.content) ((run.load l).resolved l.filled.resolved) loads r.2 := by
      rw [hr, ← hfilled]
      exact hl
    exact ⟨_, .resolve rfl (by rw [hfragment]; exact hp) (hs (hext.goes hgoes)) hentered⟩

/-- **What an expansion meets is accounted for.** -/
theorem accounted_expand (stack : List Path) (run : Run) (items : List Content)
    (ends : (x.expand w stack run items).2.isOver = false) :
    ∃ loads, Accounted stack (Content.pendings items) (Content.directives items) run loads
      (x.expand w stack run items).2 := by
  induction stack, run, items using Expander.expand.induct w with
  | case1 stack run items ih =>
    have hT : (x.attempt w SlotMap.fill stack (x.descent w stack)).Tallies (Audited stack) := {
      nothing := fun run => ⟨id, fun _ => ⟨[], .of_report_eq rfl rfl⟩⟩
      add := .trans
      ended := fun _ h ho => .of_over h.goes ho
      attempt := fun src slots run hs =>
        (x.attempted w SlotMap.fill stack _ src slots run).audited hs ih
      skip := fun run sources => .of_like (run.like_skip sources) (run.report_skip sources)
      release := fun run items => .of_like (run.like_release items) rfl }
    rw [expand_eq] at ends ⊢
    obtain ⟨loads, hl⟩ := (hT.perform (x.settling w stack) (run.announce items).2
      (Content.announced_spec items)).accounted ends
    rw [Content.directives_announced, Multiset.coe_card] at hl
    exact ⟨loads, Content.pendings_eq items ▸ hl.announce⟩

/-- **Every pending include is accounted for once.**  Where an expansion ends without a fault, let `loads` be
what it has loaded, each a fragment that could be read:

· The entries of the report are as many more as there are pending includes in the document and, right after
substitution, in the fragments loaded. The includes among them are those of the loads, and the placeholders
are those that substitution met in the fragments.

· With every load, no include in the slots is pending; so they bring the fragment none, wherever and however
often its placeholders stand. Only directives of the document are loaded in its own fragments `stack`, each
at most once; and in the fragments `inside`, only those of what was loaded into these. -/
theorem every_include_accounted (x : Expander) (w : FileTree) (stack : List Path) (run : Run)
    (items : List Content) (ends : (x.expand w stack run items).2.isOver = false) :
    ∃ loads, (x.expand w stack run items).2.loads = loads ++ run.loads ∧
      (∀ l ∈ loads, Markup.parse l.source = .ok l.fragment) ∧
      (x.expand w stack run items).2.entries = run.entries + Content.pendings items +
        (loads.map fun l => Content.pendings l.filled.content).sum ∧
      (x.expand w stack run items).2.report.includes.Perm
        (run.report.includes ++ loads.map Load.reference) ∧
      (x.expand w stack run items).2.report.placeholders = run.report.placeholders +
        (loads.map fun l => (l.filled.resolved.length : Int)).sum ∧
      (∀ l ∈ loads, (∀ s ∈ l.slots, Content.pendings s.2 = 0) ∧
        Content.pendings l.filled.content = Content.pendings (l.slots.emptied.fill l.fragment).content) ∧
      ∀ inside, Load.references inside loads ≤
        (if inside = stack then (Content.directives items : Multiset String) else 0) +
          Load.inner inside loads := by
  obtain ⟨loads, h⟩ := accounted_expand stack run items ends
  refine ⟨loads, h.loaded, h.parsed, h.entries, h.includes, h.placeholders, fun l hl => ?_, h.once⟩
  exact ⟨fun s hs => Content.pendings_of_settled (h.slots l hl s hs),
    SlotMap.pendings_fill (h.slots l hl) l.fragment⟩

/-! ### Slots that fail -/

/-- A fragment that shows its slot twice, and one that splices it into an attribute value. -/
def slotFiles : FileTree :=
  { FileTree.ofEntries [(["src"], .directory),
      (["src", "twice"], .file ⟨"<yield name=\"a\"></yield><yield name=\"a\"></yield>".toUTF8.toList, 0, 0⟩),
      (["src", "spliced"], .file ⟨"<p class=\"<yield name=\"a\"></yield>\"></p>".toUTF8.toList, 0, 1⟩)]
    with fresh := 2 }

/-- A page that gives the fragment `src` a slot with an include of a missing one in it. -/
def slotMarkup (src : String) : String :=
  "<include src=\"" ++ src ++ "\"><yield name=\"a\"><b id=\"i\"></b><include src=\"n\"></include>" ++
    "</yield></include>"

/-- The page as it is read. -/
def slotDocument (src : String) : List Content :=
  [.node { tag := some "include", attrs := [("src", .text src)] }
    [.node { tag := some "yield", attrs := [("name", .text "a")] }
      [.node { tag := some "b", attrs := [("id", .text "i")] } [],
        .node { tag := some "include", attrs := [("src", .text "n")] } []]]]

/-- Shown twice, the include in the slot is accounted for once. -/
theorem shown_slot_accounted :
    (sampleExpander.expand slotFiles [] {} (slotDocument "twice")).2.isOver = false ∧
      (sampleExpander.expand slotFiles [] {} (slotDocument "twice")).2.report.errors =
        ["Could not read file: /src/n"] ∧
      ∃ loads, (sampleExpander.expand slotFiles [] {} (slotDocument "twice")).2.loads = loads ++ [] ∧
        (sampleExpander.expand slotFiles [] {} (slotDocument "twice")).2.entries =
          0 + 2 + (loads.map fun l => Content.pendings l.filled.content).sum ∧
        ["twice"].Perm (loads.map Load.reference) := by
  have hends : (sampleExpander.expand slotFiles [] {} (slotDocument "twice")).2.isOver = false := by
    decide +kernel
  have hincludes : (sampleExpander.expand slotFiles [] {} (slotDocument "twice")).2.report.includes =
      ["twice"] := by decide +kernel
  obtain ⟨loads, hloads, _, hentries, hperm, _⟩ :=
    every_include_accounted sampleExpander slotFiles [] {} (slotDocument "twice") hends
  have hpendings : Content.pendings (slotDocument "twice") = 2 := by decide
  rw [hpendings] at hentries
  rw [hincludes] at hperm
  exact ⟨hends, by decide +kernel, loads, hloads, hentries, by simpa using hperm⟩

/-- **An include in a slot may be reported twice**, where the fragment splices the slot into an attribute
value. The page has one include of `n`, in the slot, and the text of the fragment has none; but what is
spliced is written without escapes, so its first quote ends the value and its include is one of the
fragment. -/
theorem spliced_slot_reported_twice :
    Markup.parse (slotMarkup "spliced") = .ok (slotDocument "spliced") ∧
      Content.directives (slotDocument "spliced") = ["spliced", "n"] ∧
      (Markup.parse "<p class=\"<yield name=\"a\"></yield>\"></p>").toOption.map Content.directives =
        some [] ∧
      (sampleExpander.process slotFiles "<document>" (slotMarkup "spliced")).1.isSome = true ∧
      (sampleExpander.process slotFiles "<document>" (slotMarkup "spliced")).2.report.errors =
        ["Could not read file: /src/n", "Could not read file: /src/n"] := by
  decide +kernel

end Expander
end PageComposer
