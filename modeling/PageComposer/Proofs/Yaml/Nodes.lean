/-
# What ends the reading of nodes

A reader of nodes fails for the grammar, or as the tokens have come to an end, for what ended them; and it changes
nothing about that (`Keeps`).  So a text that makes no document is at fault for its notation, or for a code or a number
that stands in it (`blames_of_document?`).
-/

import PageComposer.Proofs.Yaml.Tokens
import PageComposer.Yaml.Node

namespace PageComposer
namespace Yaml

open Markup (Gives)

/-! ### Steps -/

/-- A step fails for the grammar or for what ended the tokens, and keeps what ended them. -/
def Keeps {α : Type} (m : Read α) : Prop :=
  ∀ r : Reader, Gives (fun f => f.isSyntactic = true ∨ f = r.fault) (fun a => a.2.fault = r.fault) (m.run r)

namespace Keeps

variable {α β : Type}

theorem pure (a : α) : Keeps (pure a : Read α) := fun _ => rfl

theorem grammar : Keeps (throw .grammar : Read α) := fun _ => .inl rfl

theorem document : Keeps (throw .document : Read α) := fun _ => .inl rfl

theorem modify {g : Reader → Reader} (hg : ∀ r, (g r).fault = r.fault) : Keeps (modify g : Read Unit) := hg

theorem bind {m : Read α} {next : α → Read β} (hm : Keeps m) (hnext : ∀ a, Keeps (next a)) :
    Keeps (m >>= next) := by
  intro r
  refine Gives.bind (hm r) fun a ha => ?_
  have h := hnext a.1 a.2
  rwa [ha] at h

theorem ite {p : Prop} [Decidable p] {m n : Read α} (hm : Keeps m) (hn : Keeps n) : Keeps (if p then m else n) := by
  split
  · exact hm
  · exact hn

theorem get {next : Reader → Read α} (h : ∀ r, Gives (fun f => f.isSyntactic = true ∨ f = r.fault)
    (fun a => a.2.fault = r.fault) ((next r).run r)) : Keeps (get >>= next) := h

end Keeps

namespace Read

theorem keeps_peek : Keeps peek := by
  refine .get fun r => ?_
  split
  · exact rfl
  · exact Or.inr rfl

theorem keeps_take : Keeps take := .modify fun _ => rfl

theorem keeps_isNext (ts : List Token) : Keeps (isNext ts) := keeps_peek.bind fun _ => .pure _

theorem keeps_takeIf (t : Token) : Keeps (takeIf t) :=
  keeps_peek.bind fun _ => .ite (keeps_take.bind fun _ => .pure _) (.pure _)

theorem keeps_anchor? : Keeps anchor? := by
  refine keeps_peek.bind fun t => ?_
  split
  · exact keeps_take.bind fun _ => .pure _
  · exact .pure _

theorem keeps_tag? : Keeps tag? := by
  refine keeps_peek.bind fun t => ?_
  split
  · exact keeps_take.bind fun _ => .pure _
  · exact .pure _

theorem keeps_fullTag (t : TagText) : Keeps (fullTag t) := by
  unfold fullTag
  split
  · exact .pure _
  · refine .get fun r => ?_
    split
    · exact rfl
    · exact Or.inl rfl

theorem keeps_properties : Keeps properties := by
  refine keeps_anchor?.bind fun first => keeps_tag?.bind fun tag => ?_
  extract_lets full
  have hfull : ∀ anchor, Keeps (full anchor) := by
    intro anchor
    simp only [full]
    split
    · exact .pure _
    · exact (keeps_fullTag _).bind fun _ => .pure _
  exact .ite (.bind (.pure _) hfull) (keeps_anchor?.bind hfull)

theorem keeps_declare (anchor : Option String) : Keeps (declare anchor) := by
  unfold declare
  split
  · exact .pure _
  · refine .get fun r => ?_
    split
    · exact Or.inl rfl
    · exact rfl

theorem keeps_name (anchor : Option String) (n : Node) : Keeps (name anchor n) := by
  unfold name
  dsimp only
  split
  · exact .pure _
  · exact .bind (.modify fun _ => rfl) fun _ => .pure _

theorem keeps_aliased (name : String) : Keeps (aliased name) := by
  refine .get fun r => ?_
  split
  · exact Or.inl rfl
  · rfl
  · rfl

end Read

/-! ### Nodes -/

open Read

theorem keeps_readEmpty (anchor tag : Option String) : Keeps (readEmpty anchor tag) := by
  have hempty : Keeps (do
      declare anchor
      name anchor (.scalar (scalarTag "" true tag) "")) :=
    (keeps_declare anchor).bind fun _ => keeps_name _ _
  unfold readEmpty
  exact .ite (.bind .grammar fun _ => hempty) hempty

/-- A collection as its anchor now means it. -/
theorem keeps_collection {α : Type} {read : Read α} (anchor : Option String) (collect : α → Node) (h : Keeps read) :
    Keeps (do
      declare anchor
      take
      name anchor (collect (← read))) :=
  (keeps_declare anchor).bind fun _ => keeps_take.bind fun _ => h.bind fun _ => keeps_name _ _

/-- The readers of nodes with `fuel`. -/
structure ReadersKeep (fuel : Nat) : Prop where
  node : ∀ block dashes, Keeps (readNode block dashes fuel)
  before : ∀ stops block dashes, Keeps (readUnless stops block dashes fuel)
  value : ∀ stops block dashes, Keeps (readValue stops block dashes fuel)
  items : Keeps (readItems fuel)
  dashes : Keeps (readDashes fuel)
  entries : Keeps (readEntries fuel)
  flowItems : ∀ first, Keeps (readFlowItems first fuel)
  flowEntries : ∀ first, Keeps (readFlowEntries first fuel)

namespace ReadersKeep

theorem zero : ReadersKeep 0 where
  node _ _ := .grammar
  before _ _ _ := .grammar
  value _ _ _ := .grammar
  items := .grammar
  dashes := .grammar
  entries := .grammar
  flowItems _ := .grammar
  flowEntries _ := .grammar

variable {fuel : Nat} (h : ReadersKeep fuel)
include h

theorem node_succ (block dashes : Bool) : Keeps (readNode block dashes (fuel + 1)) := by
  unfold readNode
  refine keeps_peek.bind fun t => ?_
  split
  · exact keeps_take.bind fun _ => keeps_aliased _
  · refine keeps_properties.bind fun p => ?_
    obtain ⟨anchor, tag⟩ := p
    refine keeps_peek.bind fun t => ?_
    refine .ite ((keeps_declare anchor).bind fun _ => h.dashes.bind fun _ => keeps_name _ _) ?_
    split
    · exact keeps_take.bind fun _ => (keeps_declare anchor).bind fun _ => keeps_name _ _
    · exact keeps_collection anchor (.sequence _) (h.flowItems true)
    · exact keeps_collection anchor (.mapping _) (h.flowEntries true)
    · exact .ite (keeps_readEmpty _ _) (keeps_collection anchor (.sequence _) h.items)
    · exact .ite (keeps_readEmpty _ _) (keeps_collection anchor (.mapping _) h.entries)
    · exact keeps_readEmpty _ _

theorem items_succ : Keeps (readItems (fuel + 1)) := by
  unfold readItems
  exact (keeps_takeIf _).bind fun _ =>
    .ite ((h.before _ _ _).bind fun _ => h.items.bind fun _ => .pure _) <|
      (keeps_takeIf _).bind fun _ => .ite (.pure _) .grammar

theorem dashes_succ : Keeps (readDashes (fuel + 1)) := by
  unfold readDashes
  exact (keeps_takeIf _).bind fun _ =>
    .ite ((h.before _ _ _).bind fun _ => h.dashes.bind fun _ => .pure _) (.pure _)

theorem entries_succ : Keeps (readEntries (fuel + 1)) := by
  unfold readEntries
  exact (keeps_takeIf _).bind fun _ =>
    .ite ((h.before _ _ _).bind fun _ => (h.value _ _ _).bind fun _ => h.entries.bind fun _ => .pure _) <|
      (keeps_takeIf _).bind fun _ => .ite (.pure _) .grammar

theorem flowItems_succ (first : Bool) : Keeps (readFlowItems first (fuel + 1)) := by
  unfold readFlowItems
  refine (keeps_takeIf _).bind fun _ => .ite (.pure _) ?_
  extract_lets item
  have hitem : ∀ u, Keeps (item u) := by
    intro u
    exact (keeps_takeIf _).bind fun _ =>
      .ite ((h.before _ _ _).bind fun _ => (h.value _ _ _).bind fun _ => (h.flowItems false).bind fun _ => .pure _) <|
        (keeps_takeIf _).bind fun _ =>
          .ite (.pure _) ((h.node _ _).bind fun _ => (h.flowItems false).bind fun _ => .pure _)
  exact .ite ((keeps_takeIf _).bind fun _ => .ite (.bind .grammar hitem) (hitem ())) (hitem ())

theorem flowEntries_succ (first : Bool) : Keeps (readFlowEntries first (fuel + 1)) := by
  unfold readFlowEntries
  refine (keeps_takeIf _).bind fun _ => .ite (.pure _) ?_
  extract_lets entry
  have hentry : ∀ u, Keeps (entry u) := by
    intro u
    exact (keeps_takeIf _).bind fun _ =>
      .ite ((h.before _ _ _).bind fun _ => (h.value _ _ _).bind fun _ => (h.flowEntries false).bind fun _ => .pure _) <|
        (keeps_takeIf _).bind fun _ =>
          .ite (.pure _) ((h.node _ _).bind fun _ => (h.flowEntries false).bind fun _ => .pure _)
  exact .ite ((keeps_takeIf _).bind fun _ => .ite (.bind .grammar hentry) (hentry ())) (hentry ())

theorem succ : ReadersKeep (fuel + 1) where
  node := h.node_succ
  before _ _ _ := (keeps_isNext _).bind fun _ => .ite (.pure _) (h.node _ _)
  value _ _ _ := (keeps_takeIf _).bind fun _ => .ite (h.before _ _ _) (.pure _)
  items := h.items_succ
  dashes := h.dashes_succ
  entries := h.entries_succ
  flowItems := h.flowItems_succ
  flowEntries := h.flowEntries_succ

omit h in
theorem all (fuel : Nat) : ReadersKeep fuel := by
  induction fuel with
  | zero => exact zero
  | succ fuel ih => exact ih.succ

end ReadersKeep

/-! ### Documents -/

theorem keeps_readDirectives (version : Bool) (handles : List (String × String)) (fuel : Nat) :
    Keeps (readDirectives version handles fuel) := by
  induction fuel generalizing version handles with
  | zero => exact .grammar
  | succ fuel ih =>
    unfold readDirectives
    refine keeps_peek.bind fun t => ?_
    split
    · refine keeps_take.bind fun _ => ?_
      split
      · exact .ite (.bind .grammar fun _ => ih _ _) (ih _ _)
      · exact .ite (.bind .grammar fun _ => ih _ _) (ih _ _)
      · exact ih _ _
    · exact .pure _

theorem keeps_skipEnds (fuel : Nat) : Keeps (skipEnds fuel) := by
  induction fuel with
  | zero => exact .pure _
  | succ fuel ih => exact (keeps_takeIf _).bind fun _ => .ite ih (.pure _)

theorem keeps_readStart (fuel : Nat) : Keeps (readStart fuel) := by
  unfold readStart
  exact (keeps_readDirectives _ _ _).bind fun _ => .bind (.modify fun _ => rfl) fun _ =>
    (keeps_takeIf _).bind fun _ => .ite .grammar (.pure _)

theorem keeps_readDocument (fuel : Nat) : Keeps (readDocument fuel) := by
  have hall := ReadersKeep.all fuel
  unfold readDocument
  refine keeps_peek.bind fun t => .ite (.pure _) ?_
  extract_lets isExplicit rest
  have hrest : ∀ root, Keeps (rest root) := by
    intro root
    exact (keeps_skipEnds _).bind fun _ => keeps_peek.bind fun _ =>
      .ite (.pure _) ((keeps_readStart _).bind fun _ => .document)
  refine .ite ((keeps_readStart _).bind fun _ => keeps_peek.bind fun t => ?_)
    (.bind (.modify fun _ => rfl) fun _ => (hall.node _ _).bind hrest)
  split <;> first | exact .bind (.pure _) hrest | exact (hall.node _ _).bind hrest

/-- **A text makes no document for its notation, or for a code or a number that stands in it.** -/
theorem blames_of_document? {cs : List Char} {f : Fault} (h : document? cs = .error f) : Blames cs f := by
  unfold document? at h
  split at h
  · obtain rfl := Except.error.inj h
    exact .syntactic rfl
  · split at h
    rename_i ts end? htokens
    dsimp only at h
    split at h
    · cases h
    · rename_i g hg
      obtain rfl := Except.error.inj h
      have hread := keeps_readDocument (3 * ts.length + 3) { tokens := ts, fault := end?.getD .token }
      rw [hg] at hread
      rcases hread with hg | hg
      · exact .syntactic hg
      · cases end? with
        | none => exact hg ▸ blames_token cs
        | some e =>
          obtain rfl : g = e := hg
          exact blames_of_tokens (congrArg Prod.snd htokens)

end Yaml
end PageComposer
