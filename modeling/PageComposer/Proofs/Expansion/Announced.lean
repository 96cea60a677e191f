/-
# What announcing does

Announcing settles the pending includes without a valid reference and warns about each
(`Run.announce_eq`); all else stays. Afterwards every pending include is a directive
(`Content.announced_spec`), and announcing again does nothing (`Run.announce_eq_self`).
-/

import PageComposer.Proofs.Document.Closed
import PageComposer.Proofs.Expansion.Attempt

namespace PageComposer

namespace Head

/-- Whether the node is a pending include without a valid reference. -/
def isInvalid (h : Head) : Bool := h.isPending && h.source?.isNone

/-- The head as announcing leaves it. -/
def announced (h : Head) : Head := if h.isInvalid then h.settle else h

/-- The warning about a node. -/
def complaint? (h : Head) : Option String :=
  if h.isInvalid then
    some s!"Skipping include with invalid src: <include{Markup.renderAttrs h.attrs}>"
  else none

@[simp] theorem isYield_announced (h : Head) : h.announced.isYield = h.isYield := by
  unfold announced; split <;> rfl

@[simp] theorem isInclude_announced (h : Head) : h.announced.isInclude = h.isInclude := by
  unfold announced; split <;> rfl

theorem isInvalid_announced (h : Head) : h.announced.isInvalid = false := by
  unfold announced
  split
  · simp [isInvalid]
  · rename_i hn; simpa using hn

theorem isInclude_of_isInvalid {h : Head} (hi : h.isInvalid = true) : h.isInclude = true := by
  simp only [isInvalid, isPending, Bool.and_eq_true] at hi
  exact hi.1.1

theorem announced_of_isYield {h : Head} (hy : h.isYield = true) : h.announced = h := by
  refine if_neg fun hi => ?_
  rw [isYield_of_isInclude (isInclude_of_isInvalid hi)] at hy
  cases hy

/-- Settling a settled head changes nothing. -/
theorem settle_of_settled {h : Head} (hs : h.settled = true) : h.settle = h := by
  cases h; simp_all [settle]

/-- An include that is neither a directive nor invalid is settled. -/
theorem settled_of_directive?_eq_none {h : Head} (hi : h.isInclude = true)
    (hn : h.isInvalid = false) (hd : h.directive? = none) : h.settled = true := by
  unfold isInvalid isPending at hn
  unfold directive? at hd
  cases hs : h.settled with
  | true => rfl
  | false => simp_all

end Head

namespace Content

mutual

/-- An item as announcing leaves it. -/
def announcedItem : Content → Content
  | .text s => .text s
  | .node h cs => .node h.announced (announced cs)

/-- A content list as announcing leaves it. -/
def announced : List Content → List Content
  | [] => []
  | item :: rest => announcedItem item :: announced rest

end

/-- The warnings about a content list, in document order. -/
def complaints (items : List Content) : List String :=
  (headsAll items).filterMap Head.complaint?

@[simp] theorem announced_nil : announced [] = [] := rfl

@[simp] theorem announced_text (s : String) (rest : List Content) :
    announced (.text s :: rest) = .text s :: announced rest := by
  simp [announced, announcedItem]

@[simp] theorem announced_node (h : Head) (cs rest : List Content) :
    announced (.node h cs :: rest) = .node h.announced (announced cs) :: announced rest := by
  simp [announced, announcedItem]

theorem headsAll_announced (items : List Content) :
    headsAll (announced items) = (headsAll items).map Head.announced := by
  induction items using list_induction with
  | nil => rfl
  | text s rest ih => simpa using ih
  | node h cs rest ihc ih => simp [ihc, ih]

/-- **After announcing every pending include is a directive.** -/
theorem announced_spec (items : List Content) :
    ∀ h ∈ headsAll (announced items), h.isInvalid = false := by
  intro h hh
  rw [headsAll_announced] at hh
  obtain ⟨g, _, rfl⟩ := List.mem_map.1 hh
  exact g.isInvalid_announced

theorem announced_eq_self {items : List Content}
    (hn : ∀ h ∈ headsAll items, h.isInvalid = false) : announced items = items := by
  induction items using list_induction with
  | nil => rfl
  | text s rest ih => simp [ih (by simpa using hn)]
  | node h cs rest ihc ih =>
    have hh : h.announced = h := if_neg (by simp [hn h (by simp)])
    rw [announced_node, hh, ihc fun g hg => hn g (by simp [hg]), ih fun g hg => hn g (by simp [hg])]

theorem complaints_eq_nil_iff {items : List Content} :
    complaints items = [] ↔ ∀ h ∈ headsAll items, h.isInvalid = false := by
  simp only [complaints, List.filterMap_eq_nil_iff]
  refine forall₂_congr fun h _ => ?_
  unfold Head.complaint?
  cases h.isInvalid <;> simp

@[simp] theorem closed_announced (binding : Bool) (items : List Content) :
    closed binding (announced items) = closed binding items := by
  induction items using list_induction generalizing binding with
  | nil => rfl
  | text s rest ih => simpa using ih binding
  | node h cs rest ihc ih => simp [ihc, ih]

@[simp] theorem closedBelow_announced (items : List Content) :
    closedBelow (announced items) = closedBelow items := by
  induction items using list_induction with
  | nil => rfl
  | text s rest ih => simpa using ih
  | node h cs rest ihc ih => simp [ihc, ih]

/-- Announcing keeps what children bind, announced. -/
theorem filterMap_binding?_announced (children : List Content) :
    (announced children).filterMap SlotMap.binding? =
      (children.filterMap SlotMap.binding?).map fun b => (b.1, announced b.2) := by
  induction children with
  | nil => rfl
  | cons item rest ih =>
    cases item with
    | text s =>
      rw [announced_text, List.filterMap_cons_none rfl, List.filterMap_cons_none rfl, ih]
    | node h cs =>
      rw [announced_node]
      by_cases hy : h.isYield = true
      · rw [Head.announced_of_isYield hy]
        cases hn : h.textAttr? "name" with
        | none => simpa [SlotMap.binding?_node, hy, hn] using ih
        | some name => simpa [SlotMap.binding?_node, hy, hn] using ih
      · rw [Bool.not_eq_true] at hy
        rw [List.filterMap_cons_none (SlotMap.binding?_eq_none hy cs),
          List.filterMap_cons_none (SlotMap.binding?_eq_none (by simpa using hy) _), ih]

@[simp] theorem bindsClosed_announced (children : List Content) :
    bindsClosed (announced children) = bindsClosed children := by
  simp [bindsClosed, filterMap_binding?_announced, List.all_map, Function.comp_def]

@[simp] theorem bindingsClosed_announced (items : List Content) :
    bindingsClosed (announced items) = bindingsClosed items := by
  induction items using list_induction with
  | nil => rfl
  | text s rest ih => simpa using ih
  | node h cs rest ihc ih => simp [ihc, ih]

end Content

namespace Run

/-- **Announcing settles what is invalid and warns about it.** -/
theorem announce_eq (run : Run) (items : List Content) :
    run.announce items = (Content.announced items, (Content.complaints items).foldl warn run) := by
  induction items using Content.list_induction generalizing run with
  | nil => simp [announce, Content.complaints]
  | text s rest ih => simp [announce, announceItem, ih, Content.complaints]
  | node h cs rest ihc ih =>
    have hc : Content.complaints (.node h cs :: rest) =
        h.complaint?.toList ++ (Content.complaints cs ++ Content.complaints rest) := by
      unfold Content.complaints
      rw [Content.headsAll_node, List.filterMap_cons, List.filterMap_append]
      cases h.complaint? <;> rfl
    rw [hc, List.foldl_append, List.foldl_append, Content.announced_node, announce, announceItem]
    by_cases hi : h.isInvalid = true
    · have hi' : (h.isPending && h.source?.isNone) = true := hi
      simp [hi', hi, ihc, ih, Head.announced, Head.complaint?]
    · have hi' : ¬(h.isPending && h.source?.isNone) = true := hi
      simp [hi', hi, ihc, ih, Head.announced, Head.complaint?]

/-- Announcing again does nothing. -/
theorem announce_eq_self (run : Run) {items : List Content}
    (hn : ∀ h ∈ Content.headsAll items, h.isInvalid = false) : run.announce items = (items, run) := by
  rw [announce_eq, Content.announced_eq_self hn, Content.complaints_eq_nil_iff.2 hn]
  rfl

theorem extends_announce (run : Run) (items : List Content) :
    run.Extends (run.announce items).2 := by
  rw [announce_eq]
  generalize Content.complaints items = messages
  induction messages generalizing run with
  | nil => exact .refl run
  | cons m ms ih => exact (run.extends_warn m).trans (ih (run.warn m))

/-- What no warning changes is not changed by announcing. -/
theorem announce_keeps {β : Type} (f : Run → β) (hf : ∀ run message, f (run.warn message) = f run)
    (run : Run) (items : List Content) : f (run.announce items).2 = f run := by
  rw [announce_eq]
  exact foldl_keeps f hf run _

theorem loads_announce (run : Run) (items : List Content) : (run.announce items).2.loads = run.loads :=
  announce_keeps Run.loads (fun _ _ => rfl) run items

theorem errors_announce (run : Run) (items : List Content) :
    (run.announce items).2.report.errors = run.report.errors :=
  announce_keeps (fun run => run.report.errors) (fun _ _ => rfl) run items

/-- Announcing does not end an expansion. -/
theorem fault_announce (run : Run) (items : List Content) : (run.announce items).2.fault? = run.fault? :=
  announce_keeps Run.fault? (fun _ _ => rfl) run items

/-- Announcing adds a warning for each complaint and nothing else. -/
theorem report_announce (run : Run) (items : List Content) :
    (run.announce items).2.report =
      { run.report with warnings := run.report.warnings ++ Content.complaints items } := by
  rw [announce_eq]
  generalize Content.complaints items = messages
  induction messages generalizing run with
  | nil => simp
  | cons m ms ih => simpa [warn, Report.addWarning] using ih (run.warn m)

/-- Without a warning there was nothing invalid. -/
theorem isInvalid_of_warnings {run : Run} {items : List Content}
    (hw : (run.announce items).2.report.warnings = run.report.warnings) :
    ∀ h ∈ Content.headsAll items, h.isInvalid = false := by
  rw [report_announce] at hw
  exact Content.complaints_eq_nil_iff.1 (List.self_eq_append_right.1 hw.symm)

end Run
end PageComposer
