/-
# Expansion as a plain recursion

Performing directives in place, slots first, skipping what has been dealt with, comes to a recursion over
the document (`Expander.plain`, `Expander.expand_eq_plain`):

| item | becomes |
| --- | --- |
| text | itself |
| node, no directive | itself, its content unfolded; an include is settled |
| directive | a transparent node with the fragment for its slots, unfolded one level deeper |
| directive whose fragment is refused or cannot be read | a settled include, its content unfolded |

The slots of a directive are those of its content as it has been unfolded. No placeholder may stand below
an include of the document, as the fragment of that include would be given it again.
-/

import PageComposer.Proofs.Expansion.Expanded

namespace PageComposer

namespace Content

mutual

/-- An item with its directives replaced by what `splice` gives for their references and slots; those that
it gives nothing for stay. -/
def unfoldItem (splice : String → SlotMap → Option (List Content)) : Content → Content
  | .text s => .text s
  | .node h cs =>
    match h.directive? with
    | none => .node (if h.isInclude then h.settle else h) (unfold splice cs)
    | some src =>
      match splice src (SlotMap.ofChildren (unfold splice cs)) with
      | some fragment => .node h.resolved fragment
      | none => .node h.settle (unfold splice cs)

/-- A content list with its directives replaced by what `splice` gives for their references and slots. -/
def unfold (splice : String → SlotMap → Option (List Content)) : List Content → List Content
  | [] => []
  | item :: rest => unfoldItem splice item :: unfold splice rest

end

variable (splice : String → SlotMap → Option (List Content))

@[simp] theorem unfold_nil : unfold splice [] = [] := rfl

@[simp] theorem unfold_text (s : String) (rest : List Content) :
    unfold splice (.text s :: rest) = .text s :: unfold splice rest := by
  simp [unfold, unfoldItem]

theorem unfold_kept {h : Head} (hd : h.directive? = none) (cs rest : List Content) :
    unfold splice (.node h cs :: rest) =
      .node (if h.isInclude then h.settle else h) (unfold splice cs) :: unfold splice rest := by
  simp [unfold, unfoldItem, hd]

theorem unfold_directive {h : Head} {src : String} (hd : h.directive? = some src)
    (cs rest : List Content) :
    unfold splice (.node h cs :: rest) =
      (match splice src (SlotMap.ofChildren (unfold splice cs)) with
        | some fragment => .node h.resolved fragment
        | none => .node h.settle (unfold splice cs)) :: unfold splice rest := by
  simp only [unfold, unfoldItem, hd]

/-- Unfolding settles what announcing would. -/
theorem unfold_announced (items : List Content) :
    unfold splice (announced items) = unfold splice items := by
  induction items using list_induction with
  | nil => rfl
  | text s rest ih => simp [ih]
  | node h cs rest ihc ih =>
    rw [announced_node]
    by_cases hi : h.isInvalid = true
    · -- an invalid include is no directive, settled or not
      have hinc := Head.isInclude_of_isInvalid hi
      have hd : h.directive? = none := by
        simp only [Head.isInvalid, Bool.and_eq_true, Option.isNone_iff_eq_none] at hi
        simp [Head.directive?, hi.2]
      have hs : h.announced = h.settle := if_pos hi
      rw [hs, unfold_kept splice (h := h.settle) (by simp [Head.directive?, Head.settle]),
        unfold_kept splice hd, ihc, ih]
      simp only [Head.isInclude_settle, hinc, if_true]
      rfl
    · have hs : h.announced = h := if_neg hi
      rw [hs]
      cases hd : h.directive? with
      | none => rw [unfold_kept splice hd, unfold_kept splice hd, ihc, ih]
      | some src => rw [unfold_directive splice hd, unfold_directive splice hd, ihc, ih]

end Content

/-- The outcome of a directive that a fragment was found for, or none. -/
def Outcome.ofFragment : Option (List Content) → Outcome
  | some fragment => .resolved fragment
  | none => .failed

/-- An outcome that comes to what `splice` gives, as far as the slots hold no placeholder. -/
structure Spliced (splice : String → SlotMap → Option (List Content)) (src : String) (slots : SlotMap)
    (o : Outcome) : Prop where
  done : o ≠ .aborted
  closed : ∀ f, o = .resolved f → Content.closed false f = true
  agrees : slots.Closed → o = .ofFragment (splice src slots)

namespace Performed

variable {splice : String → SlotMap → Option (List Content)} {items items' : List Content}

/-- Below an include without placeholders, the slots hold none either. -/
theorem closed_slots (hp : Performed (Spliced splice) items items')
    (hc : Content.closed true items = true) : (SlotMap.ofChildren items').Closed :=
  SlotMap.closed_ofChildren
    (Content.bindsClosed_of_closed (hp.closed (fun _ _ f ht => ht.closed f rfl) hc))

/-- A document without placeholders below includes has been unfolded. -/
theorem eq_unfold (hp : Performed (Spliced splice) items items')
    (hn : ∀ h ∈ Content.headsAll items, h.isInvalid = false)
    (hb : Content.closedBelow items = true) : items' = Content.unfold splice items := by
  induction hp with
  | nil => rfl
  | text s _ ih => rw [Content.unfold_text, ih (by simpa using hn) (by simpa using hb)]
  | @kept h cs cs' rest rest' hd _ _ ihc ih =>
    simp only [Content.closedBelow_node, Bool.and_eq_true] at hb
    have hrest := ih (fun g hg => hn g (by simp [hg])) hb.2
    have hcs : cs' = Content.unfold splice cs := by
      refine ihc (fun g hg => hn g (by simp [hg])) ?_
      cases hi : h.isInclude with
      | true => exact Content.closedBelow_of_closed (by simpa [hi] using hb.1)
      | false => simpa [hi] using hb.1
    rw [Content.unfold_kept splice hd, ← hcs, ← hrest]
    split
    · rename_i hi
      rw [Head.settle_of_settled (Head.settled_of_directive?_eq_none hi (hn h (by simp)) hd)]
    · rfl
  | aborted hd ht _ _ _ _ => exact absurd rfl ht.done
  | failed hd ht hpc _ ihc ih | resolved hd ht hpc _ ihc ih =>
    simp only [Content.closedBelow_node, Head.isInclude_of_directive? hd, if_true,
      Bool.and_eq_true] at hb
    have hcs := ihc (fun g hg => hn g (by simp [hg])) (Content.closedBelow_of_closed hb.1)
    have hrest := ih (fun g hg => hn g (by simp [hg])) hb.2
    have ho := ht.agrees (hpc.closed_slots hb.1)
    rw [Content.unfold_directive splice hd, ← hcs, ← hrest]
    unfold Outcome.ofFragment at ho
    split at ho <;> simp_all

end Performed

namespace Expander

/-- The fragment for a reference with slots in the fragments of `stack`, unfolded by `inner`; none where it
is refused or cannot be used. -/
def spliced (x : Expander) (w : FileTree) (stack : List Path)
    (inner : (path : Path) → path ∉ stack → (stack.length : Int) < x.maxDepth → List Content →
      List Content) (src : String) (slots : SlotMap) : Option (List Content) :=
  match x.fragments.resolve w src with
  | .error _ => none
  | .ok path =>
    if hin : path ∈ stack then none
    else if hdeep : x.maxDepth ≤ stack.length then none
    else
      match x.fragments.readPath w path with
      | .error _ => none
      | .ok cs =>
        match Markup.parse (AttributeSlots.rewrite slots (String.ofList cs)) with
        | .error _ => none
        | .ok items => some (inner path hin (by omega) (Content.subst slots false items))

/-- What an expansion makes of a document in the fragments of `stack`, as a recursion over the document and
the fragments that its directives lead to. -/
def plain (x : Expander) (w : FileTree) (stack : List Path) (items : List Content) : List Content :=
  Content.unfold (x.spliced w stack fun path _ _hdeep items => plain x w (stack ++ [path]) items) items
termination_by (x.maxDepth - stack.length).toNat
decreasing_by
  simp only [List.length_append, List.length_singleton]
  omega

variable {x : Expander} {w : FileTree}

/-- **An expansion that ends without a fault is the plain recursion.**  No placeholder may stand below an
include of the document; what fragments hold does not matter. -/
theorem expand_eq_plain (stack : List Path) (run : Run) (items : List Content)
    (closed : Content.closedBelow items = true)
    (ends : (x.expand w stack run items).2.isOver = false) :
    (x.expand w stack run items).1 = x.plain w stack items := by
  rw [plain, ← Content.unfold_announced]
  refine Performed.eq_unfold (performed_expand (fun run => run.isOver = false) Run.Extends.goes
    (fun {src slots run o run'} ha hg => ?_) ends) (Content.announced_spec items)
    (by simpa using closed)
  cases ha with
  | ended ho | broken _ _ _ _ _ _ ho => rw [ho] at hg; cases hg
  | unresolved _ | unusable _ _ _ | rejected _ _ _ => cases hg
  | circular hr hin =>
    exact ⟨by simp, by simp, fun _ => by simp [spliced, hr, hin, Outcome.ofFragment]⟩
  | deep hr hnew hdeep =>
    exact ⟨by simp, by simp, fun _ => by simp [spliced, hr, hnew, hdeep, Outcome.ofFragment]⟩
  | unreadable hadm hread =>
    refine ⟨by simp, by simp, fun _ => ?_⟩
    simp [spliced, hadm.resolves, hadm.fresh, Int.not_le.2 hadm.shallow, hread, Outcome.ofFragment]
  | @entered path cs fragment hadm hread hparse hfile hnew r hr ho =>
    have hfill := SlotMap.closed_fill slots fragment
    refine ⟨by simp, fun f hf => ?_, fun hs => ?_⟩
    · obtain rfl := Outcome.resolved.inj hf
      rw [hr]
      exact closed_expand _ _ hfill
    · have hplain : r.1 = x.plain w (stack ++ [path]) (Content.subst slots false fragment) := by
        rw [hr] at ho ⊢
        rw [← SlotMap.fill_eq_subst hs]
        exact expand_eq_plain _ _ _ (Content.closedBelow_of_closed hfill) ho
      simp only [Load.source] at hparse
      simp [spliced, hadm.resolves, hadm.fresh, Int.not_le.2 hadm.shallow, hread, hparse, hplain,
        Outcome.ofFragment]
termination_by w.unvisited stack
decreasing_by exact FileTree.unvisited_lt hfile hnew

/-- The recursion gives what the example becomes. -/
theorem sample_unfolds : Content.closedBelow sampleDocument = true ∧
    (sampleExpander.expand sampleFiles [] {} sampleDocument).2.isOver = false ∧
    sampleExpander.plain sampleFiles [] sampleDocument = sampleExpanded := by
  obtain ⟨htree, hends⟩ := expand_sample
  have hclosed : Content.closedBelow sampleDocument = true := by decide
  refine ⟨hclosed, hends, ?_⟩
  rw [← expand_eq_plain [] {} sampleDocument hclosed hends, htree]

end Expander
end PageComposer
