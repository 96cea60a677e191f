/-
# The copies that a substitution inserts

Beside a document before and after substitution one finds the content that was inserted (`SlotMap.copies`), one
for every placeholder whose name is bound:

| node before | copies |
| --- | --- |
| yield child of an include, other node | those below it |
| yield, its name bound | all that is below it afterwards |
| yield, unbound and optional | none |
| yield, unbound | those below it |

They are what the slots insert (`SlotMap.isInserted_of_mem_copies`), no two of them have a node in common if no
node has two places in the document afterwards (`SlotMap.pairwise_copies`), and outside of them there is no new
node (`SlotMap.places_markAll_fillAll_le`).
-/

import PageComposer.Proofs.Session.Shared

namespace PageComposer
namespace SlotMap

variable (slots : SlotMap)

/-- The name of a placeholder, if it is bound. -/
def boundName (p : Placeholder) : Option String := p.name.filter fun name => (slots.get? name).isSome

mutual

/-- The copies that were inserted in an item, beside that item as it is afterwards. -/
def copiesItem (binding : Bool) : Content → Content → List (String × List Content)
  | .node h cs, .node _ ds =>
    if binding || !h.isYield then copies h.isInclude cs ds
    else
      match slots.boundName h.placeholder with
      | some name => [(name, ds)]
      | none => if h.placeholder.isOptional then [] else copies false cs ds
  | _, _ => []

/-- The copies that were inserted in a content list, with the names of their slots. -/
def copies (binding : Bool) : List Content → List Content → List (String × List Content)
  | item :: rest, new :: news => copiesItem binding item new ++ copies binding rest news
  | _, _ => []

end

variable {slots} {a : Nat} {binding : Bool}

@[simp] theorem contents_nil : contents [] = [] := rfl

@[simp] theorem contents_append (xs ys : SlotMap) : contents (xs ++ ys) = contents xs ++ contents ys :=
  List.flatMap_append

@[simp] theorem contents_cons (s : String × List Content) (rest : SlotMap) :
    contents (s :: rest) = s.2 ++ contents rest := rfl

@[simp] theorem copies_nil (after : List Content) : slots.copies binding [] after = [] := by
  rw [copies]
  exact fun _ _ _ _ h => by cases h

@[simp] theorem copies_text (s : String) (rest : List Content) (new : Content) (news : List Content) :
    slots.copies binding (.text s :: rest) (new :: news) = slots.copies binding rest news := by
  simp [copies, copiesItem]

theorem copies_kept {h : Head} (hk : (binding || !h.isYield) = true) (g : Head) (cs ds rest news : List Content) :
    slots.copies binding (.node h cs :: rest) (.node g ds :: news) =
      slots.copies h.isInclude cs ds ++ slots.copies binding rest news := by
  rw [copies, copiesItem, if_pos hk]

/-- The copies at a placeholder. -/
def copiesAt (slots : SlotMap) (p : Placeholder) (cs ds : List Content) : List (String × List Content) :=
  match slots.boundName p with
  | some name => [(name, ds)]
  | none => if p.isOptional then [] else slots.copies false cs ds

theorem copies_placeholder {h : Head} (hy : h.isYield = true) (g : Head) (cs ds rest news : List Content) :
    slots.copies false (.node h cs :: rest) (.node g ds :: news) =
      slots.copiesAt h.placeholder cs ds ++ slots.copies false rest news := by
  rw [copies, copiesItem, if_neg (by simp [hy])]
  rfl

/-! ### What stands for a placeholder -/

/-- A copy stands for a placeholder whose name is bound. -/
theorem standIn_of_bound {p : Placeholder} {name : String} (hb : slots.boundName p = some name) :
    ∃ f, slots.insertion name = some f ∧ ∀ own, Content.standIn slots.insertion p own = f := by
  obtain ⟨hname, hget⟩ := Option.filter_eq_some_iff.1 hb
  obtain ⟨content, hcontent⟩ := Option.isSome_iff_exists.1 hget
  refine ⟨(slots.erase name).fill (Content.copyAll content), by rw [insertion, hcontent]; rfl, fun own => ?_⟩
  rw [Content.standIn, hname, Option.bind_some, insertion, hcontent]
  rfl

/-- Its own content stands for another one, if that is not optional. -/
theorem standIn_of_unbound {p : Placeholder} (hb : slots.boundName p = none) (own : Filled) :
    Content.standIn slots.insertion p own = if p.isOptional then ⟨[], []⟩ else own := by
  have hnone : p.name.bind slots.insertion = none := by
    cases hname : p.name with
    | none => rfl
    | some name =>
      rw [boundName, hname, Option.filter_some] at hb
      cases hget : slots.get? name with
      | none => rw [Option.bind_some, insertion, hget]; rfl
      | some content => simp [hget] at hb
  rw [Content.standIn, hnone]

/-! ### Where the copies stand -/

theorem places_copiesAt_le {p : Placeholder} {cs ds : List Content}
    (hcs : Content.places a (contents (slots.copies false cs ds)) ≤ Content.places a ds) :
    Content.places a (contents (slots.copiesAt p cs ds)) ≤ Content.places a ds := by
  unfold copiesAt
  split
  · simp
  · split
    · simp
    · exact hcs

/-- The copies stand in the document as it is afterwards. -/
theorem places_copies_le (slots : SlotMap) (binding : Bool) (before after : List Content) :
    Content.places a (contents (slots.copies binding before after)) ≤ Content.places a after := by
  induction before using Content.list_induction generalizing binding after with
  | nil => simp
  | text s rest ih =>
    cases after with
    | nil => simp [copies]
    | cons new news =>
      have := ih binding news
      rw [copies_text, Content.places_cons]
      omega
  | node h cs rest ihc ih =>
    cases after with
    | nil => simp [copies]
    | cons new news =>
      have hrest := ih binding news
      cases new with
      | text t =>
        rw [Content.places_text]
        simpa [copies, copiesItem] using hrest
      | node g ds =>
        rw [Content.places_node]
        by_cases hk : (binding || !h.isYield) = true
        · have hcs := ihc h.isInclude ds
          rw [copies_kept hk, contents_append, Content.places_append]
          omega
        · obtain ⟨rfl, hy⟩ : binding = false ∧ h.isYield = true := by simpa using hk
          have hat := places_copiesAt_le (p := h.placeholder) (ihc false ds)
          rw [copies_placeholder hy, contents_append, Content.places_append]
          omega

/-- **No two copies have a node in common**, if no node in them has two places. -/
theorem pairwise_copies {copies : SlotMap} (hs : Content.Single copies.contents) :
    copies.Pairwise fun c d => Content.Apart c.2 d.2 := by
  induction copies with
  | nil => exact .nil
  | cons c rest ih =>
    have hplaces : ∀ a, Content.places a c.2 + Content.places a (contents rest) ≤ 1 := by
      intro a
      have := hs a
      rwa [contents_cons, Content.places_append] at this
    refine List.pairwise_cons.2 ⟨fun d hd a => ?_, ih fun a => ?_⟩
    · have := hplaces a
      have := places_contents_of_mem (a := a) hd
      omega
    · have := hplaces a
      omega

/-! ### What the copies are -/

/-- Content that is a copy of what a slot inserts. -/
def IsInserted (slots : SlotMap) (c : String × List Content) : Prop :=
  ∃ f, slots.insertion c.1 = some f ∧ Content.copyAll c.2 = Content.copyAll f.content

theorem isInserted_of_mem_copiesAt {p : Placeholder} {own : Filled} {cs ds : List Content}
    (h : Content.copyAll ds = Content.copyAll (Content.standIn slots.insertion p own).content)
    (hcs : Content.copyAll ds = Content.copyAll own.content → ∀ c ∈ slots.copies false cs ds, slots.IsInserted c) :
    ∀ c ∈ slots.copiesAt p cs ds, slots.IsInserted c := by
  intro c hc
  unfold copiesAt at hc
  cases hb : slots.boundName p with
  | some name =>
    obtain ⟨f, hf, hstand⟩ := standIn_of_bound hb
    rw [hb] at hc
    obtain rfl := List.mem_singleton.1 hc
    exact ⟨f, hf, by rw [h, hstand]⟩
  | none =>
    rw [standIn_of_unbound hb] at h
    rw [hb] at hc
    dsimp only at hc
    split at hc
    · cases hc
    · rename_i ho
      rw [if_neg ho] at h
      exact hcs h c hc

/-- **Each copy is what its slot inserts**, where the document afterwards is what substitution makes of it. -/
theorem isInserted_of_mem_copies {before after : List Content}
    (h : Content.copyAll after = Content.copyAll (Content.fillAll slots.insertion binding before).content) :
    ∀ c ∈ slots.copies binding before after, slots.IsInserted c := by
  induction before using Content.list_induction generalizing binding after with
  | nil => simp
  | text s rest ih =>
    cases after with
    | nil => cases h
    | cons new news =>
      rw [Content.fillAll_text] at h
      obtain ⟨-, hrest⟩ := List.cons.inj h
      rw [copies_text]
      exact ih hrest
  | node g cs rest ihc ih =>
    cases after with
    | nil => simp [copies]
    | cons new news =>
      by_cases hk : (binding || !g.isYield) = true
      · rw [Content.fillAll_kept _ hk] at h
        obtain ⟨hfirst, hrest⟩ := List.cons.inj h
        cases new with
        | text t => cases hfirst
        | node g' ds =>
          rw [copies_kept hk]
          intro c hc
          rcases List.mem_append.1 hc with hc | hc
          · exact ihc (Content.node.inj hfirst).2 c hc
          · exact ih hrest c hc
      · obtain ⟨rfl, hy⟩ : binding = false ∧ g.isYield = true := by simpa using hk
        rw [Content.fillAll_placeholder _ hy] at h
        obtain ⟨hfirst, hrest⟩ := List.cons.inj h
        cases new with
        | text t => cases hfirst
        | node g' ds =>
          obtain ⟨-, hds⟩ := Content.node.inj hfirst
          rw [copies_placeholder hy]
          intro c hc
          rcases List.mem_append.1 hc with hc | hc
          · exact isInserted_of_mem_copiesAt hds (fun h => ihc h) c hc
          · exact ih hrest c hc

/-! ### New nodes -/

theorem places_markAll_standIn_le {p : Placeholder} {own : Filled} {cs : List Content} {n : Nat}
    (hcs : Content.places a (Content.markAll n own.content).1 ≤
      Content.places a cs + Content.places a (contents (slots.copies false cs (Content.markAll n own.content).1))) :
    let ds := (Content.markAll n (Content.standIn slots.insertion p own).content).1
    Content.places a ds ≤ Content.places a cs + Content.places a (contents (slots.copiesAt p cs ds)) := by
  dsimp only
  unfold copiesAt
  cases hb : slots.boundName p with
  | some name => simp
  | none =>
    rw [standIn_of_unbound hb]
    by_cases ho : p.isOptional = true
    · simp [ho]
    · simp only [if_neg ho]
      exact hcs

/-- **A node that is new stands in a copy**, if all nodes of the document have marks. -/
theorem places_markAll_fillAll_le (slots : SlotMap) (binding : Bool) {before : List Content}
    (hm : Content.Marked before) (n : Nat) :
    let after := (Content.markAll n (Content.fillAll slots.insertion binding before).content).1
    Content.places a after ≤
      Content.places a before + Content.places a (contents (slots.copies binding before after)) := by
  induction before using Content.list_induction generalizing binding n with
  | nil => exact Nat.zero_le _
  | text s rest ih =>
    have hrest := ih binding (fun g hg => hm g (by simpa using hg)) n
    dsimp only at hrest ⊢
    rw [Content.fillAll_text, Content.markAll_text, copies_text, Content.places_text, Content.places_text]
    exact hrest
  | node h cs rest ihc ih =>
    have hh : h.mark.isSome = true := hm h (by simp)
    have hcs : Content.Marked cs := fun g hg => hm g (by simp [hg])
    have hmark : h.mark = some a ↔ some (h.mark.getD n) = some a := by
      obtain ⟨m, hm⟩ := Option.isSome_iff_exists.1 hh
      simp [hm]
    have hrest : Content.Marked rest := fun g hg => hm g (by simp [hg])
    dsimp only
    by_cases hk : (binding || !h.isYield) = true
    · have hin := ihc h.isInclude hcs n
      have hout := ih binding hrest
        (Content.markAll n (Content.fillAll slots.insertion h.isInclude cs).content).2
      dsimp only at hin hout
      rw [Content.fillAll_kept _ hk, Content.markAll_node, if_pos hh, copies_kept hk, contents_append,
        Content.places_node, Content.places_node, Content.places_append]
      simp only [hmark]
      omega
    · obtain ⟨rfl, hy⟩ : binding = false ∧ h.isYield = true := by simpa using hk
      have hr : h.resolved.mark.isSome = true := hh
      have hin := places_markAll_standIn_le (p := h.placeholder) (ihc false hcs n)
      have hout := ih false hrest (Content.markAll n
        (Content.standIn slots.insertion h.placeholder (Content.fillAll slots.insertion false cs)).content).2
      dsimp only at hin hout
      rw [Content.fillAll_placeholder _ hy]
      dsimp only
      rw [Content.markAll_node, if_pos hr, copies_placeholder hy, contents_append, Content.places_node,
        Content.places_node, Content.places_append, show h.resolved.mark = h.mark from rfl]
      simp only [hmark]
      omega

end SlotMap
end PageComposer
