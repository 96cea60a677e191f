/-
# Inserted content is independent of its source

Where slots share no node with two documents, substitution in both inserts copies that share no node with each
other nor with the slots, and leaves the slots as they are. Whatever is done to one document then, the other and
the slots stay.

Copies get marks of their own (`Store.Does.substitute`), and what is apart from a document stays while something
is done to that (`Store.HasSlots.steps`, `Store.HasTree.steps`). A session does the same with the marks that it
gives out (`Session.Steps.frame`). An expansion gives no node a second place, as it gives no node a place more
(`Expander.single_markAll_expand`).
-/

import PageComposer.Proofs.Session.Built
import PageComposer.Proofs.Session.Copies
import PageComposer.Proofs.Session.Steps

namespace PageComposer

/-- A document after substitution: its content is what plain substitution makes, each copy is what its slot
inserts, and all nodes that are new stand in copies. -/
structure SlotMap.Inserts (slots : SlotMap) (before after : List Content) : Prop where
  content : Content.copyAll after = Content.copyAll (slots.fill before).content
  inserted : ∀ c ∈ slots.copies false before after, slots.IsInserted c
  new : ∀ a, Content.places a before = 0 →
    Content.places a after ≤ Content.places a (SlotMap.contents (slots.copies false before after))

/-- **An expansion gives no node a second place.** -/
theorem Expander.single_markAll_expand (x : Expander) (w : FileTree) (stack : List Path) (run : Run)
    {items : List Content} {n : Nat} (hs : Content.Single items) (hn : ∀ a, n ≤ a → Content.places a items = 0) :
    Content.Single (Content.markAll n (x.expand w stack run items).1).1 := by
  intro a
  obtain ⟨howes, hkept⟩ := Expander.owes_expand (a := a) (x := x) (w := w) stack run items
  have hone := hs a
  rw [Content.places_markAll]
  split
  · rename_i hnew
    have := hn a hnew.1
    omega
  · omega

namespace Store

variable {σ σ' : Store} {name m : String} {slots : SlotMap} {xs : List Content}

/-! ### Substitution -/

/-- **Substitution inserts copies**, and leaves slots that share no node with the document. -/
theorem Does.substitute (hσ : σ.Sound) (h : σ.Does name (.substitute m []) σ') (hs : σ.HasSlots m slots)
    (hx : σ.HasTree name xs) (hapart : Content.Apart slots.contents xs) :
    σ'.HasSlots m slots ∧
      ∃ xs', σ'.HasTree name xs' ∧ Content.Apart slots.contents xs' ∧ slots.Inserts xs xs' := by
  obtain ⟨items, held, hitems, hheld, rfl⟩ := h
  obtain rfl := hx.unique hitems
  obtain rfl := hs.unique (hheld m)
  have hr : Within xs ((Deed.substitute m []).act held xs) := fun a => Deed.places_act_le held xs _
  have hact : ((Deed.substitute m []).act held xs).1 = (Content.fillAll (held m).insertion false xs).content :=
    (SlotMap.fillShared_of_apart hapart false).1
  obtain ⟨hstays, happarts⟩ := hs.holds.leave name hσ.fresh hr hapart
  have htree := hx.leave hσ.fresh hr
  rw [hact] at happarts htree
  refine ⟨⟨hs.links, hstays⟩, _, htree, happarts, ?_, ?_, fun a ha => ?_⟩
  · rw [Content.copyAll_markAll, SlotMap.fill_eq_insertion]
  · exact SlotMap.isInserted_of_mem_copies (Content.copyAll_markAll _ _)
  · have := SlotMap.places_markAll_fillAll_le (a := a) (held m) false hx.holds.marked σ.next
    dsimp only at this
    omega

/-! ### What stays -/

/-- **Slots apart from a document stay whatever is done to that.** -/
theorem HasSlots.steps (hs : σ.HasSlots m slots) (hσ : σ.Sound) (h : Steps name σ σ') (hx : σ.HasTree name xs)
    (hapart : Content.Apart slots.contents xs) : σ'.HasSlots m slots := by
  obtain ⟨-, hstays, -, hlists, -⟩ := h.frame hσ hx hs.holds hapart
  exact ⟨hs.links.trans (congrFun hlists m).symm, hstays⟩

/-- **So do other documents.** -/
theorem HasTree.steps {other : String} {ys : List Content} (hy : σ.HasTree other ys) (hσ : σ.Sound)
    (h : Steps name σ σ') (hne : other ≠ name) : σ'.HasTree other ys := by
  obtain ⟨xs, hx⟩ := hσ.tree name
  obtain ⟨-, hstays, -, -, htrees⟩ := h.frame hσ hx hy.holds (hσ.apart hne hy hx)
  exact ⟨hy.links.trans (htrees other hne).symm, hstays, hy.single⟩

/-- Copies in two documents are apart from each other, and from content that is apart from both. -/
theorem Sound.copies_apart {T U : String} {ys xs' ys' zs : List Content} (hσ : σ.Sound) (hne : T ≠ U)
    (hx : σ.HasTree T xs') (hy : σ.HasTree U ys') (hzx : Content.Apart zs xs') (hzy : Content.Apart zs ys') :
    let copies := slots.copies false xs xs' ++ slots.copies false ys ys'
    copies.Pairwise (fun c d => Content.Apart c.2 d.2) ∧ ∀ c ∈ copies, Content.Apart zs c.2 := by
  have hle : ∀ a, Content.places a (SlotMap.contents (slots.copies false xs xs' ++ slots.copies false ys ys')) ≤
      Content.places a xs' + Content.places a ys' := by
    intro a
    have hcx := SlotMap.places_copies_le (a := a) slots false xs xs'
    have hcy := SlotMap.places_copies_le (a := a) slots false ys ys'
    rw [SlotMap.contents_append, Content.places_append]
    omega
  refine ⟨SlotMap.pairwise_copies fun a => ?_, fun c hc a => ?_⟩
  · have := hle a
    have := hx.single a
    have := hy.single a
    have := hσ.apart hne hx hy a
    omega
  · have := hle a
    have := hzx a
    have := hzy a
    have := SlotMap.places_contents_of_mem (a := a) hc
    omega

/-! ### A store with copies to insert -/

/-- A placeholder for the slot `x`. -/
def samplePlaceholder (mark : Option Nat) : Content :=
  .node { tag := some "yield", attrs := [("name", .text "x")], mark := mark } []

/-- What the slot `x` holds. -/
def sampleEmphasis (mark : Option Nat) : Content := .node { tag := some "em", mark := mark } [.text "hi"]

/-- Two documents with a placeholder, and slots for them. -/
def sampleStore : Store :=
  let first := empty.leave "first" ((Deed.set [samplePlaceholder none]).act (fun _ => []) [])
  let both := first.leave "second" ((Deed.set [samplePlaceholder none]).act (fun _ => []) [])
  both.bind "m" [("x", [sampleEmphasis none])]

theorem built_sampleStore : Built sampleStore := by
  refine .bind (.does (.does .empty ⟨[], fun _ => [], ?_, ?_, rfl⟩) ⟨[], fun _ => [], ?_, ?_, rfl⟩) "m" _
  · exact ⟨rfl, holds_nil, fun _ => Nat.zero_le _⟩
  · exact fun _ => ⟨rfl, holds_nil⟩
  · exact ⟨rfl, holds_nil, fun _ => Nat.zero_le _⟩
  · exact fun _ => ⟨rfl, holds_nil⟩

theorem single_samplePlaceholder (mark : Option Nat) : Content.Single [samplePlaceholder mark] := by
  intro a
  rw [samplePlaceholder, Content.places_node]
  split <;> simp

theorem hasTree_sampleStore :
    sampleStore.HasTree "first" [samplePlaceholder (some 0)] ∧
      sampleStore.HasTree "second" [samplePlaceholder (some 1)] := by
  refine ⟨⟨rfl, fun h cs hn => ?_, single_samplePlaceholder _⟩, ⟨rfl, fun h cs hn => ?_, single_samplePlaceholder _⟩⟩
  · obtain ⟨rfl, rfl⟩ := Content.node.inj (List.mem_singleton.1 hn)
    exact ⟨0, rfl, rfl⟩
  · obtain ⟨rfl, rfl⟩ := Content.node.inj (List.mem_singleton.1 hn)
    exact ⟨1, rfl, rfl⟩

theorem hasSlots_sampleStore : sampleStore.HasSlots "m" [("x", [sampleEmphasis (some 2)])] := by
  refine ⟨rfl, fun h cs hn => ?_⟩
  obtain ⟨rfl, rfl⟩ := Content.node.inj (List.mem_singleton.1 hn)
  exact ⟨2, rfl, rfl⟩

theorem apart_sample {n mark : Nat} (hne : n ≠ mark) :
    Content.Apart (SlotMap.contents [("x", [sampleEmphasis (some n)])]) [samplePlaceholder (some mark)] := by
  intro a
  by_cases hn : n = a
  · right
    rw [samplePlaceholder, Content.places_node, if_neg (by simp; omega)]
    rfl
  · left
    rw [SlotMap.contents_cons, sampleEmphasis]
    simp [hn]

theorem fill_sample :
    Content.copyAll (SlotMap.fill [("x", [sampleEmphasis (some 2)])] [samplePlaceholder (some 0)]).content =
      [.node { tag := none, settled := true } [sampleEmphasis none]] := by decide +kernel

/-- A session with such documents, and slots that it shares with a third one. -/
def sampleSession : Session where
  trees := [("first", [samplePlaceholder none]), ("second", [samplePlaceholder none]),
    ("third", [sampleEmphasis (some 0)])]
  slots := [("m", [("x", [sampleEmphasis (some 0)])])]
  next := 1

/-! ### Independence -/

/-- **Inserted content is independent of its source.**

In a store, let slots share no node with two documents. Substitution in one and in the other can be done; it
leaves the slots as they are, and no two of the copies that it inserts have a node in common, nor has one of them
with the slots. After that, whatever is done to one document, the other and the slots show what they did: the same
content, so the same rendering and the same settled nodes. Every store that a session comes to is sound
(`Store.Built.sound`).

A session does so with the marks of its own: what it inserts carries none, and so is shared with nothing.

And where no node has two places in a document, it has none in what an expansion leaves, however marks are given
to the nodes that are new. -/
theorem inserted_content_independent :
    (∀ (σ : Store) (T U m : String) (slots : SlotMap) (xs ys : List Content), σ.Sound → T ≠ U →
      σ.HasSlots m slots → σ.HasTree T xs → σ.HasTree U ys →
      Content.Apart slots.contents xs → Content.Apart slots.contents ys →
      (∃ σ₁ σ₂, σ.Does T (.substitute m []) σ₁ ∧ σ₁.Does U (.substitute m []) σ₂) ∧
      ∀ σ₁ σ₂, σ.Does T (.substitute m []) σ₁ → σ₁.Does U (.substitute m []) σ₂ →
        σ₂.HasSlots m slots ∧
        ∃ xs' ys', σ₂.HasTree T xs' ∧ σ₂.HasTree U ys' ∧ slots.Inserts xs xs' ∧ slots.Inserts ys ys' ∧
          (let copies := slots.copies false xs xs' ++ slots.copies false ys ys'
           copies.Pairwise (fun c d => Content.Apart c.2 d.2) ∧ ∀ c ∈ copies, Content.Apart slots.contents c.2) ∧
          (∀ σ₃, Steps T σ₂ σ₃ → σ₃.HasSlots m slots ∧ σ₃.HasTree U ys') ∧
          ∀ σ₃, Steps U σ₂ σ₃ → σ₃.HasSlots m slots ∧ σ₃.HasTree T xs') ∧
    (∀ (s : Session) (T U m : String), T ≠ U → Content.Apart (s.slotMap m).contents (s.tree T) →
      Content.Apart (s.slotMap m).contents (s.tree U) →
      let s₂ := ((s.substituteIn T [] m).1.substituteIn U [] m).1
      s₂.slotMap m = s.slotMap m ∧ s₂.tree T = ((s.slotMap m).fill (s.tree T)).content ∧
      s₂.tree U = ((s.slotMap m).fill (s.tree U)).content ∧
      (∀ name f, (s.slotMap m).insertion name = some f → ∀ a, Content.places a f.content = 0) ∧
      (∀ s₃, Session.Steps T s₂ s₃ → s₃.slotMap m = s.slotMap m ∧ s₃.tree U = s₂.tree U) ∧
      ∀ s₃, Session.Steps U s₂ s₃ → s₃.slotMap m = s.slotMap m ∧ s₃.tree T = s₂.tree T) ∧
    ∀ (x : Expander) (w : FileTree) (stack : List Path) (run : Run) (items : List Content) (n : Nat),
      Content.Single items → (∀ a, n ≤ a → Content.places a items = 0) →
      Content.Single (Content.markAll n (x.expand w stack run items).1).1 := by
  refine ⟨?_, ?_, fun x w stack run items n hs hn => x.single_markAll_expand w stack run hs hn⟩
  · intro σ T U m slots xs ys hσ hne hs hx hy hsx hsy
    constructor
    · obtain ⟨σ₁, h₁⟩ := hσ.exists_does T (.substitute m [])
      obtain ⟨σ₂, h₂⟩ := (hσ.does h₁).exists_does U (.substitute m [])
      exact ⟨σ₁, σ₂, h₁, h₂⟩
    · intro σ₁ σ₂ h₁ h₂
      have hσ₁ := hσ.does h₁
      have hσ₂ := hσ₁.does h₂
      obtain ⟨hs₁, xs', hx₁, hsx', hins⟩ := h₁.substitute hσ hs hx hsx
      have hy₁ := hy.steps hσ (.single ⟨_, h₁⟩) hne.symm
      obtain ⟨hs₂, ys', hy₂, hsy', hins'⟩ := h₂.substitute hσ₁ hs₁ hy₁ hsy
      have hx₂ := hx₁.steps hσ₁ (.single ⟨_, h₂⟩) hne
      exact ⟨hs₂, xs', ys', hx₂, hy₂, hins, hins', hσ₂.copies_apart hne hx₂ hy₂ hsx' hsy',
        fun σ₃ h₃ => ⟨hs₂.steps hσ₂ h₃ hx₂ hsx', hy₂.steps hσ₂ h₃ hne.symm⟩,
        fun σ₃ h₃ => ⟨hs₂.steps hσ₂ h₃ hy₂ hsy', hx₂.steps hσ₂ h₃ hne⟩⟩
  · intro s T U m hne hsT hsU s₂
    obtain ⟨hm, hT, hapart, htrees⟩ := Session.substituteIn_of_apart hsT
    rw [← hm, ← htrees U hne.symm] at hsU
    obtain ⟨hm', hU, hapart', htrees'⟩ := Session.substituteIn_of_apart hsU
    have hmT : Content.Apart (s₂.slotMap m).contents (s₂.tree T) := by rwa [hm', htrees' T hne]
    refine ⟨hm'.trans hm, (htrees' T hne).trans hT, by rw [hU, hm, htrees U hne.symm],
      fun _ _ hf _ => SlotMap.places_insertion hf, fun s₃ h₃ => ?_, fun s₃ h₃ => ?_⟩
    · exact ⟨(h₃.frame.slots m hmT).trans (hm'.trans hm), h₃.frame.trees U hne.symm⟩
    · exact ⟨(h₃.frame.slots m hapart').trans (hm'.trans hm), h₃.frame.trees T hne⟩

/-- The sample documents get an emphasis of their own each, and keep it, as the slots do. -/
theorem sample_content_independent :
    (∃ σ₁ σ₂, sampleStore.Does "first" (.substitute "m" []) σ₁ ∧ σ₁.Does "second" (.substitute "m" []) σ₂ ∧
      ∃ xs' ys', σ₂.HasTree "first" xs' ∧ σ₂.HasTree "second" ys' ∧
        Content.copyAll xs' = [.node { tag := none, settled := true } [sampleEmphasis none]] ∧
        ∀ σ₃, Steps "first" σ₂ σ₃ → σ₃.HasSlots "m" [("x", [sampleEmphasis (some 2)])] ∧ σ₃.HasTree "second" ys') ∧
    ((sampleSession.substituteIn "first" [] "m").1.substituteIn "second" [] "m").1.slotMap "m" =
      [("x", [sampleEmphasis (some 0)])] ∧
    ∀ x w stack run,
      Content.Single (Content.markAll 1 (Expander.expand x w stack run [samplePlaceholder (some 0)]).1).1 := by
  obtain ⟨hstore, hsession, hexpand⟩ := inserted_content_independent
  refine ⟨?_, ?_, fun x w stack run => hexpand x w stack run _ 1 (single_samplePlaceholder _) fun a ha => ?_⟩
  · obtain ⟨⟨σ₁, σ₂, h₁, h₂⟩, hall⟩ := hstore sampleStore "first" "second" "m" _ _ _ built_sampleStore.sound
      (by decide) hasSlots_sampleStore hasTree_sampleStore.1 hasTree_sampleStore.2
      (apart_sample (by decide)) (apart_sample (by decide))
    obtain ⟨-, xs', ys', hx, hy, hinserts, -, -, hfirst, -⟩ := hall σ₁ σ₂ h₁ h₂
    exact ⟨σ₁, σ₂, h₁, h₂, xs', ys', hx, hy, hinserts.content.trans fill_sample, hfirst⟩
  · exact (hsession sampleSession "first" "second" "m" (by decide) (fun _ => .inr rfl) fun _ => .inr rfl).1
  · rw [samplePlaceholder, Content.places_node, if_neg (by simp; omega)]
    rfl

end Store
end PageComposer
