/-
# Which nodes a walk visits

A walk is taken apart into steps (`Visitor.Step`): it passes over a text, or acts at a node and then has the content of
that node before it.  The nodes visited so far and those that lie before it are the document as it then is, in document
order, so at the end the walk has visited the nodes of what it leaves.

| an act | the walk |
| --- | --- |
| supplies finitely many nodes in all | ends (`acc_of_finite`) and leaves a document (`exists_leaves`) |
| leaves a document | has visited its nodes in order (`Leaves.reaches`), within any budget that is large enough |
| supplies no node that has a place elsewhere | visits no node twice (`Progress.WellMarked.reaches`) |
| takes a node away and does not supply it again | does not visit it (`places_eq_zero_of_reaches`) |

Nodes are told from each other by their marks.
-/

import Mathlib.Logic.Relation
import PageComposer.Document.Walk
import PageComposer.Proofs.Document.Places

namespace PageComposer
namespace Visitor

open Content (headsAll places sizeAll Marked Single)
open Relation (ReflTransGen TransGen transGen_swap)

variable {σ : Type}

/-- What is done at a node: the state of who does it, and the content that the node then has. -/
abbrev Act (σ : Type) := σ → Head → List Content → σ × List Content

/-- How far a walk has come. -/
structure Progress (σ : Type) where
  state : σ
  /-- The nodes visited so far. -/
  calls : List Head := []
  /-- What lies before the walk. -/
  todo : List Content
  /-- How many nodes more than before the contents have that were replaced. -/
  supplied : Nat := 0

namespace Progress

/-- The nodes of the document as it is then. -/
def heads (t : Progress σ) : List Head := t.calls ++ headsAll t.todo

/-- The number of places that the node with a mark has in the document as it is then. -/
def places (t : Progress σ) (a : Nat) : Nat := t.heads.countP fun h => h.mark == some a

/-- Every node has a mark, and no node has two places. -/
structure WellMarked (t : Progress σ) : Prop where
  marked : ∀ h ∈ t.heads, h.mark.isSome = true
  single : ∀ a, t.places a ≤ 1

end Progress

/-- One step of a walk. -/
inductive Step (act : Act σ) : Progress σ → Progress σ → Prop
  | pass {s : σ} {calls : List Head} {t : String} {rest : List Content} {n : Nat} :
      Step act ⟨s, calls, .text t :: rest, n⟩ ⟨s, calls, rest, n⟩
  | call {s : σ} {calls : List Head} {h : Head} {cs rest : List Content} {n : Nat} :
      Step act ⟨s, calls, .node h cs :: rest, n⟩
        ⟨(act s h cs).1, calls ++ [h], (act s h cs).2 ++ rest,
          n + ((headsAll (act s h cs).2).length - (headsAll cs).length)⟩

/-- The steps of a walk. -/
abbrev Reaches (act : Act σ) : Progress σ → Progress σ → Prop := ReflTransGen (Step act)

/-- A walk that has not begun. -/
def start (s : σ) (items : List Content) : Progress σ := { state := s, todo := items }

variable {act : Act σ} {t u : Progress σ}

/-- What a walk leaves of a content list, and the state after it. -/
inductive Leaves (act : Act σ) : σ → List Content → σ → List Content → Prop
  | nil {s : σ} : Leaves act s [] s []
  | text {s s' : σ} {t : String} {rest rest' : List Content} :
      Leaves act s rest s' rest' → Leaves act s (.text t :: rest) s' (.text t :: rest')
  | node {s s' s'' : σ} {h : Head} {cs cs' rest rest' : List Content} :
      Leaves act (act s h cs).1 (act s h cs).2 s' cs' → Leaves act s' rest s'' rest' →
        Leaves act s (.node h cs :: rest) s'' (.node h cs' :: rest')

/-! ### The end of a walk -/

theorem rightUnique_step (act : Act σ) : Relator.RightUnique (Step act) := by
  rintro t u v (_ | _) h <;> cases h <;> rfl

/-- What a walk has reached lies before its end. -/
theorem reaches_end {t₀ : Progress σ} (ht : Reaches act t₀ t) (hend : t.todo = []) (hu : Reaches act t₀ u) :
    Reaches act u t := by
  obtain h | h := ReflTransGen.total_of_right_unique (rightUnique_step act) hu ht
  · exact h
  · obtain rfl | ⟨v, hstep, -⟩ := ReflTransGen.cases_head h
    · exact .refl
    · cases hstep <;> cases hend

/-- What a walk comes to later. -/
abbrev After (act : Act σ) : Progress σ → Progress σ → Prop := TransGen fun u t => Step act t u

/-- **A walk ends where only finitely many nodes are supplied.**  Every call uses up a node, of those before the walk or
of those that may still be supplied. -/
theorem acc_of_finite {n : Nat} : ∀ t : Progress σ, (∀ u, Reaches act t u → u.supplied ≤ n) →
    Acc (fun u t => Step act t u) t
  | ⟨_, _, [], _⟩, _ => .intro _ nofun
  | ⟨s, calls, .text t :: rest, m⟩, h => by
    have hstep : Step act ⟨s, calls, .text t :: rest, m⟩ ⟨s, calls, rest, m⟩ := .pass
    have hrest := acc_of_finite ⟨s, calls, rest, m⟩ fun u hu => h u (.head hstep hu)
    refine .intro _ fun u hu => ?_
    cases hu
    exact hrest
  | ⟨s, calls, .node g cs :: rest, m⟩, h => by
    have hstep : Step act ⟨s, calls, .node g cs :: rest, m⟩ _ := .call
    have hsupplied := h _ (.single hstep)
    have hnext := acc_of_finite _ fun u hu => h u (.head hstep hu)
    refine .intro _ fun u hu => ?_
    cases hu
    exact hnext
termination_by t => (n - t.supplied + (headsAll t.todo).length, t.todo.length)
decreasing_by
  · rw [Content.headsAll_text]
    exact Prod.Lex.right _ (Nat.lt_succ_self _)
  · refine Prod.Lex.left _ _ ?_
    simp only [Content.headsAll_append, Content.headsAll_node, List.length_append, List.length_cons] at hsupplied ⊢
    omega

/-- **A walk visits the nodes of what it leaves, in document order**, and then comes to what lies behind. -/
theorem Leaves.reaches {s s' : σ} {items items' : List Content} (h : Leaves act s items s' items') (calls : List Head)
    (behind : List Content) (n : Nat) :
    ∃ m, Reaches act ⟨s, calls, items ++ behind, n⟩ ⟨s', calls ++ headsAll items', behind, m⟩ := by
  induction h generalizing calls behind n with
  | nil =>
    refine ⟨n, ?_⟩
    rw [Content.headsAll_nil, List.append_nil, List.nil_append]
  | text _ ih =>
    obtain ⟨m, hrest⟩ := ih calls behind n
    refine ⟨m, ?_⟩
    rw [Content.headsAll_text]
    exact .head .pass hrest
  | @node s s' s'' g cs cs' rest rest' _ _ ihc ih =>
    obtain ⟨k, hcontent⟩ := ihc (calls ++ [g]) (rest ++ behind)
      (n + ((headsAll (act s g cs).2).length - (headsAll cs).length))
    obtain ⟨m, hrest⟩ := ih (calls ++ [g] ++ headsAll cs') behind k
    refine ⟨m, .head .call (hcontent.trans ?_)⟩
    rw [Content.headsAll_node]
    simpa only [List.append_assoc, List.cons_append, List.nil_append] using hrest

/-- **A walk that ends leaves something** of what is before it. -/
theorem exists_leaves (hacc : Acc (After act) t) (items behind : List Content) (htodo : t.todo = items ++ behind) :
    ∃ s' items', Leaves act t.state items s' items' := by
  induction hacc generalizing items behind with
  | intro t _ ih =>
    obtain ⟨s, calls, todo, n⟩ := t
    cases htodo
    match items with
    | [] => exact ⟨s, [], .nil⟩
    | .text w :: rest =>
      obtain ⟨s', rest', hrest⟩ := ih ⟨s, calls, rest ++ behind, n⟩ (.single .pass) rest behind rfl
      exact ⟨s', _, .text hrest⟩
    | .node g cs :: rest =>
      have hcall : Step act ⟨s, calls, .node g cs :: (rest ++ behind), n⟩ _ := .call
      obtain ⟨s', cs', hcontent⟩ := ih _ (.single hcall) (act s g cs).2 (rest ++ behind) rfl
      obtain ⟨m, hreach⟩ := hcontent.reaches (calls ++ [g]) (rest ++ behind)
        (n + ((headsAll (act s g cs).2).length - (headsAll cs).length))
      obtain ⟨s'', rest', hrest⟩ := ih _ (transGen_swap.2 (.head' hcall hreach)) rest behind rfl
      exact ⟨s'', _, .node hcontent hrest⟩

/-! ### The walk of a visitor -/

/-- The visitor that notes the nodes it meets, and replaces nothing. -/
def noting : Visitor (List Head) where
  visit met h cs := (met ++ [h], cs)
  budget _ := 0
  pays := fun _ _ _ => Nat.le_refl _

/-- **What a walk that replaces nothing meets are the nodes of the document**, in document order. -/
theorem walk_noting (met : List Head) (items : List Content) :
    noting.walk met items = (met ++ headsAll items, items) := by
  induction items using Content.list_induction generalizing met with
  | nil => rw [walk_nil, Content.headsAll_nil, List.append_nil]
  | text s rest ih => rw [walk_text, ih, Content.headsAll_text]
  | node h cs rest ihc ih =>
    rw [walk_node]
    simp only [noting] at ihc ih ⊢
    simp only [ihc, ih, Content.headsAll_node, List.append_assoc, List.cons_append, List.nil_append]

/-- The visitor that acts as `act` does, as long as a supply of items lasts. -/
def within (act : Act σ) : Visitor (σ × Nat) where
  visit r h cs :=
    let done := act r.1 h cs
    if sizeAll done.2 ≤ r.2 + sizeAll cs then ((done.1, r.2 + sizeAll cs - sizeAll done.2), done.2) else (r, cs)
  budget r := r.2
  pays := by
    intro r h cs
    dsimp only
    split
    · dsimp only
      omega
    · exact Nat.le_refl _

/-- **A budget that is large enough changes nothing**, and what is left of it grows as it does. -/
theorem Leaves.walk_within {s s' : σ} {items items' : List Content} (h : Leaves act s items s' items') :
    ∃ least left, ∀ k, (within act).walk (s, least + k) items = ((s', left + k), items') := by
  induction h with
  | nil => exact ⟨0, 0, fun k => walk_nil _ _⟩
  | text _ ih =>
    obtain ⟨least, left, hrest⟩ := ih
    refine ⟨least, left, fun k => ?_⟩
    rw [walk_text, hrest]
  | @node s s' s'' g cs cs' rest rest' _ _ ihc ih =>
    obtain ⟨p, q, hcontent⟩ := ihc
    obtain ⟨p', q', hrest⟩ := ih
    refine ⟨sizeAll (act s g cs).2 + p + p', q' + q + sizeAll cs, fun k => ?_⟩
    have hvisit : (within act).visit (s, sizeAll (act s g cs).2 + p + p' + k) g cs =
        (((act s g cs).1, p + (p' + sizeAll cs + k)), (act s g cs).2) := by
      have hfits : sizeAll (act s g cs).2 ≤ sizeAll (act s g cs).2 + p + p' + k + sizeAll cs := by omega
      have hleft : sizeAll (act s g cs).2 + p + p' + k + sizeAll cs - sizeAll (act s g cs).2 =
          p + (p' + sizeAll cs + k) := by omega
      simp only [within, if_pos hfits, hleft]
    have hbefore : q + (p' + sizeAll cs + k) = p' + (q + sizeAll cs + k) := by omega
    have hafter : q' + (q + sizeAll cs + k) = q' + q + sizeAll cs + k := by omega
    simp only [walk_node, hvisit, hcontent, hbefore, hrest, hafter]

/-! ### Nodes and their places -/

/-- Of the next act: a node that it supplies is marked, and has no place but in the content that is replaced. -/
def SuppliesFresh (act : Act σ) (t : Progress σ) : Prop :=
  ∀ h cs rest, t.todo = .node h cs :: rest →
    Marked (act t.state h cs).2 ∧
      ∀ a, places a (act t.state h cs).2 ≤ 1 ∧ (0 < places a (act t.state h cs).2 → t.places a = places a cs)

/-- Of the next act: it supplies a node that is not in the content that is replaced. -/
def Supplies (act : Act σ) (t : Progress σ) (a : Nat) : Prop :=
  ∃ h cs rest, t.todo = .node h cs :: rest ∧ places a cs = 0 ∧ 0 < places a (act t.state h cs).2

/-- Of the next act: it takes away a node of the content that is replaced. -/
def Replaces (act : Act σ) (t : Progress σ) (a : Nat) : Prop :=
  ∃ h cs rest, t.todo = .node h cs :: rest ∧ 0 < places a cs ∧ places a (act t.state h cs).2 = 0

/-- The places of a node are those among the nodes visited and those before the walk. -/
theorem Progress.places_eq (t : Progress σ) (a : Nat) :
    t.places a = (t.calls.countP fun h => h.mark == some a) + Content.places a t.todo := List.countP_append

/-- What a step does to the places of a node: nothing, or they change as they do in the content that is replaced. -/
theorem places_step (hstep : Step act t u) (a : Nat) :
    u.places a = t.places a ∨ ∃ h cs rest, t.todo = .node h cs :: rest ∧
      u.places a + places a cs = t.places a + places a (act t.state h cs).2 := by
  cases hstep with
  | pass =>
    left
    simp only [Progress.places_eq, Content.places_text]
  | @call s calls h cs rest n =>
    refine .inr ⟨h, cs, rest, rfl, ?_⟩
    simp only [Progress.places_eq, Content.places_node, Content.places_append, List.countP_append,
      List.countP_singleton, beq_iff_eq]
    omega

/-- The places in the content of a node that lies before the walk are places of the document. -/
theorem places_content_le {a : Nat} {h : Head} {cs rest : List Content} (htodo : t.todo = .node h cs :: rest) :
    places a cs ≤ t.places a := by
  rw [Progress.places_eq, htodo, Content.places_node]
  omega

/-- **A step after which no node has a second place.** -/
theorem Progress.WellMarked.step (h : t.WellMarked) (hfresh : SuppliesFresh act t) (hstep : Step act t u) :
    u.WellMarked := by
  refine ⟨?_, fun a => ?_⟩
  · cases hstep with
    | pass => simpa only [Progress.heads, Content.headsAll_text] using h.marked
    | call =>
      have hnew := (hfresh _ _ _ rfl).1
      have hold := h.marked
      simp only [Progress.heads, Content.headsAll_append, Content.headsAll_node, List.forall_mem_append,
        List.forall_mem_cons] at hold ⊢
      exact ⟨⟨hold.1, hold.2.1, nofun⟩, hnew, hold.2.2.2⟩
  · have hsingle := h.single a
    obtain heq | ⟨g, cs, rest, htodo, heq⟩ := places_step hstep a
    · omega
    · obtain ⟨hone, helsewhere⟩ := (hfresh g cs rest htodo).2 a
      by_cases hnew : 0 < Content.places a (act t.state g cs).2
      · have := helsewhere hnew
        omega
      · omega

/-- **No node has a second place as long as what is supplied has none.** -/
theorem Progress.WellMarked.reaches (h : t.WellMarked) (hfresh : ∀ v, Reaches act t v → SuppliesFresh act v)
    (hreach : Reaches act t u) : u.WellMarked := by
  induction hreach with
  | refl => exact h
  | tail hbefore hstep ih => exact ih.step (hfresh _ hbefore) hstep

/-- A step that takes a node away takes its one place. -/
theorem places_eq_zero_of_replaces {a : Nat} (h : t.WellMarked) (hreplaces : Replaces act t a) (hstep : Step act t u) :
    u.places a = 0 := by
  obtain ⟨g, cs, rest, htodo, hold, hnew⟩ := hreplaces
  have hsingle := h.single a
  cases hstep with
  | pass => cases htodo
  | call =>
    cases htodo
    simp only [Progress.places_eq, Content.places_node, Content.places_append, List.countP_append,
      List.countP_singleton, beq_iff_eq] at hsingle hnew ⊢
    omega

/-- A step gives no place to a node without one that it does not supply. -/
theorem places_eq_zero_of_not_supplies {a : Nat} (hnone : t.places a = 0) (hnever : ¬ Supplies act t a)
    (hstep : Step act t u) : u.places a = 0 := by
  obtain heq | ⟨g, cs, rest, htodo, heq⟩ := places_step hstep a
  · omega
  · have hle := places_content_le (a := a) htodo
    have hnew : ¬ 0 < Content.places a (act t.state g cs).2 := fun hpos => hnever ⟨g, cs, rest, htodo, by omega, hpos⟩
    omega

/-- **A node that is taken away and not supplied again has no place at the end.** -/
theorem places_eq_zero_of_reaches {a : Nat} (h : t.WellMarked) (hreplaces : Replaces act t a)
    (hnever : ∀ v, Reaches act t v → ¬ Supplies act v a) (hreach : Reaches act t u) (hend : u.todo = []) :
    u.places a = 0 := by
  obtain rfl | ⟨v, hstep, hrest⟩ := ReflTransGen.cases_head hreach
  · obtain ⟨g, cs, rest, htodo, -⟩ := hreplaces
    rw [hend] at htodo
    cases htodo
  · clear hend hreach
    have hnone := places_eq_zero_of_replaces h hreplaces hstep
    induction hrest with
    | refl => exact hnone
    | tail hbefore hlast ih => exact places_eq_zero_of_not_supplies ih (hnever _ (.head hstep hbefore)) hlast

/-! ### The visits of a walk -/

/-- **A walk visits every node of the document that it leaves once, in document order, and no other**: whatever is done
at each node to the content of that node, as long as the nodes that are supplied are finitely many and have no other
place.  A node that is taken away before the walk is at it, and is not supplied again, is not visited.  A single node
is walked over as `[node]`, and nothing as `[]`. -/
theorem walk_visits_final_document (act : Act σ) (s : σ) (items : List Content) (hmarked : Marked items)
    (hsingle : Content.Single items) (hfresh : ∀ t, Reaches act (start s items) t → SuppliesFresh act t)
    (hfinite : ∃ n, ∀ t, Reaches act (start s items) t → t.supplied ≤ n) :
    ∃ t final, Reaches act (start s items) t ∧ t.todo = [] ∧
      (∃ least left, ∀ k, (within act).walk (s, least + k) items = ((t.state, left + k), final)) ∧
      t.calls = headsAll final ∧ (noting.walk [] final).1 = t.calls ∧
      (∀ a, (t.calls.countP fun h => h.mark == some a) ≤ 1) ∧ (∀ h ∈ t.calls, h.mark.isSome = true) ∧
      ∀ u a, Reaches act (start s items) u → Replaces act u a → (∀ v, Reaches act u v → ¬ Supplies act v a) →
        ∀ h ∈ t.calls, h.mark ≠ some a := by
  obtain ⟨n, hfinite⟩ := hfinite
  have hstart : (start s items).WellMarked := ⟨hmarked, hsingle⟩
  have hacc := (acc_of_finite (start s items) hfinite).transGen
  obtain ⟨s', final, hleaves⟩ := exists_leaves hacc items [] (List.append_nil items).symm
  obtain ⟨m, hreach⟩ := hleaves.reaches [] [] 0
  have hend : Reaches act (start s items) ⟨s', headsAll final, [], m⟩ := by
    rw [List.append_nil, List.nil_append] at hreach
    exact hreach
  have hwell := hstart.reaches hfresh hend
  refine ⟨⟨s', headsAll final, [], m⟩, final, hend, rfl, hleaves.walk_within, rfl, by rw [walk_noting]; rfl, ?_, ?_, ?_⟩
  · intro a
    simpa only [Progress.places, Progress.heads, Content.headsAll_nil, List.append_nil] using hwell.single a
  · intro h hh
    exact hwell.marked h (List.mem_append_left _ hh)
  · intro u a hu hreplaces hnever h hh hmark
    have hnone := places_eq_zero_of_reaches (hstart.reaches hfresh hu) hreplaces hnever (reaches_end hend rfl hu) rfl
    rw [Progress.places, List.countP_eq_zero] at hnone
    exact hnone h (List.mem_append_left _ hh) (beq_iff_eq.2 hmark)

/-- A node with a tag and a mark. -/
def leaf (tag : String) (mark : Nat) : Head := { tag := some tag, mark := some mark }

/-- Puts a new node below the first node it meets, and changes nothing below the others. -/
def replaceFirst : Act Bool
  | false, _, _ => (true, [.node (leaf "new" 3) []])
  | true, _, cs => (true, cs)

/-- A node below a node. -/
def twoNodes : List Content := [.node (leaf "outer" 1) [.node (leaf "inner" 2) []]]

theorem reaches_replaceFirst {t : Progress Bool} (h : Reaches replaceFirst (start false twoNodes) t) :
    t = start false twoNodes ∨ t = ⟨true, [leaf "outer" 1], [.node (leaf "new" 3) []], 0⟩ ∨
      t = ⟨true, [leaf "outer" 1, leaf "new" 3], [], 0⟩ := by
  induction h with
  | refl => exact .inl rfl
  | tail _ hstep ih =>
    obtain rfl | rfl | rfl := ih <;> cases hstep
    · exact .inr (.inl rfl)
    · exact .inr (.inr rfl)

theorem suppliesFresh_replaceFirst (t : Progress Bool) (h : Reaches replaceFirst (start false twoNodes) t) :
    SuppliesFresh replaceFirst t := by
  intro g cs rest htodo
  obtain rfl | rfl | rfl := reaches_replaceFirst h <;> cases htodo
  · refine ⟨by simp [Marked, replaceFirst, start, leaf], fun a => ?_⟩
    simp only [Progress.places_eq, twoNodes, replaceFirst, start, leaf, Content.places_node, Content.places_nil,
      List.countP_nil, Option.some.injEq]
    split_ifs <;> omega
  · exact ⟨nofun, fun a => ⟨Nat.zero_le 1, fun h => absurd h (Nat.lt_irrefl 0)⟩⟩

/-- The node that the new one stands for is not visited. -/
theorem replaced_node_not_visited : ∃ t, Reaches replaceFirst (start false twoNodes) t ∧ t.todo = [] ∧
    ∀ h ∈ t.calls, h.mark ≠ some 2 := by
  have hfinite : ∃ n, ∀ t, Reaches replaceFirst (start false twoNodes) t → t.supplied ≤ n := by
    refine ⟨0, fun t ht => ?_⟩
    obtain rfl | rfl | rfl := reaches_replaceFirst ht <;> exact Nat.le_refl 0
  have hmarked : Marked twoNodes := by simp [Marked, twoNodes, leaf]
  have hsingle : Content.Single twoNodes := by
    intro a
    simp only [twoNodes, leaf, Content.places_node, Content.places_nil, Option.some.injEq]
    split_ifs <;> omega
  obtain ⟨t, final, hreach, hend, -, -, -, -, -, hnever⟩ :=
    walk_visits_final_document replaceFirst false twoNodes hmarked hsingle suppliesFresh_replaceFirst hfinite
  refine ⟨t, hreach, hend, hnever _ 2 .refl ⟨_, _, _, rfl, by decide, by decide⟩ fun u hu => ?_⟩
  rintro ⟨g, cs, rest, htodo, hold, hnew⟩
  obtain rfl | rfl | rfl := reaches_replaceFirst hu <;> cases htodo
  · exact absurd hold (by decide)
  · exact absurd hnew (by decide)

end Visitor
end PageComposer
