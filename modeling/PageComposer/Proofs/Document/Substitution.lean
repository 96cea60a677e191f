/-
# What substitution leaves

Substitution leaves no placeholder (`closed_fill`), and no head but those of the document and of the
bound content, resolved or copied (`forall_heads_fill`). Where there is no placeholder it changes nothing
(`fillAll_of_closed`). So bound content without placeholders is inserted as it is, and substitution is a
plain recursion over the document (`SlotMap.fill_eq_subst`):

| node | becomes |
| --- | --- |
| yield child of an include, other node | itself, its content substituted |
| yield, its name bound | a transparent node with a copy of what is bound |
| yield, unbound and optional | an empty transparent node |
| yield, unbound | a transparent node with its own content substituted |
-/

import PageComposer.Proofs.Document.Bindings
import PageComposer.Proofs.Document.Closed

namespace PageComposer

/-- The placeholder that a yield is. -/
def Head.placeholder (h : Head) : Placeholder :=
  ⟨h.textAttr? "name", (h.attrs.get? "optional").any AttrValue.isOn⟩

theorem Head.placeholder?_of_isYield {h : Head} (hy : h.isYield = true) :
    h.placeholder? = some h.placeholder := by
  simp [placeholder?, placeholder, hy]

namespace Content

/-- What stands for a placeholder; `own` is its own content, substituted. -/
def standIn (bound : String → Option Filled) (p : Placeholder) (own : Filled) : Filled :=
  match p.name.bind bound with
  | some f => f
  | none => if p.isOptional then ⟨[], []⟩ else own

variable (bound : String → Option Filled)

@[simp] theorem fillAll_nil (binding : Bool) : fillAll bound binding [] = ⟨[], []⟩ := rfl

@[simp] theorem fillAll_text (binding : Bool) (s : String) (rest : List Content) :
    fillAll bound binding (.text s :: rest) =
      ⟨.text s :: (fillAll bound binding rest).content, (fillAll bound binding rest).resolved⟩ := by
  simp [fillAll, fillItem]

/-- A node that is no placeholder stays. -/
theorem fillAll_kept {binding : Bool} {h : Head} (hk : (binding || !h.isYield) = true)
    (cs rest : List Content) :
    fillAll bound binding (.node h cs :: rest) =
      ⟨.node h (fillAll bound h.isInclude cs).content :: (fillAll bound binding rest).content,
        (fillAll bound h.isInclude cs).resolved ++ (fillAll bound binding rest).resolved⟩ := by
  have hp : (if binding then none else h.placeholder?) = none := by
    cases binding with
    | true => rfl
    | false => simp_all [Head.placeholder?]
  by_cases hi : h.isInclude = true
  · simp [fillAll, fillItem, hi]
  · simp only [fillAll, fillItem, hp, Bool.not_eq_true] at hi ⊢
    simp [hi]

/-- A placeholder becomes a transparent node with what stands for it. -/
theorem fillAll_placeholder {h : Head} (hy : h.isYield = true) (cs rest : List Content) :
    fillAll bound false (.node h cs :: rest) =
      let f := standIn bound h.placeholder (fillAll bound false cs)
      ⟨.node h.resolved f.content :: (fillAll bound false rest).content,
        h.placeholder.name :: f.resolved ++ (fillAll bound false rest).resolved⟩ := by
  have hi := Head.isInclude_of_isYield hy
  simp only [fillAll, fillItem, hi, Head.placeholder?_of_isYield hy, standIn]
  cases hb : h.placeholder.name.bind bound with
  | some f => simp [hb]
  | none => by_cases ho : h.placeholder.isOptional = true <;> simp [hb, ho]

/-- Substitution changes nothing where there is no placeholder. -/
theorem fillAll_of_closed {binding : Bool} {items : List Content}
    (hc : closed binding items = true) : fillAll bound binding items = ⟨items, []⟩ := by
  induction items using list_induction generalizing binding with
  | nil => rfl
  | text s rest ih => rw [fillAll_text, ih (by simpa using hc)]
  | node h cs rest ihc ih =>
    simp only [closed_node, Bool.and_eq_true] at hc
    rw [fillAll_kept bound hc.1.1, ihc hc.1.2, ih hc.2]
    rfl

/-- A copy of content without placeholders stays as it is. -/
theorem fillAll_copy_of_closed {content : List Content} (hc : closed false content = true) :
    fillAll bound false (copyAll content) = ⟨copyAll content, []⟩ :=
  fillAll_of_closed bound (by rwa [closed_copyAll])

variable {bound}

/-- Substitution leaves no placeholder, if what is bound holds none. -/
theorem closed_fillAll (hb : ∀ name f, bound name = some f → closed false f.content = true)
    (binding : Bool) (items : List Content) :
    closed binding (fillAll bound binding items).content = true := by
  induction items using list_induction generalizing binding with
  | nil => rfl
  | text s rest ih => simpa using ih binding
  | node h cs rest ihc ih =>
    by_cases hk : (binding || !h.isYield) = true
    · rw [fillAll_kept bound hk]
      simp only [closed_node, hk, ihc, ih, Bool.and_self]
    · obtain ⟨rfl, hy⟩ : binding = false ∧ h.isYield = true := by simpa using hk
      rw [fillAll_placeholder bound hy]
      have hs : closed false (standIn bound h.placeholder (fillAll bound false cs)).content = true := by
        unfold standIn
        split
        · rename_i f hf
          obtain ⟨name, _, hname⟩ := Option.bind_eq_some_iff.1 hf
          exact hb name f hname
        · split
          · rfl
          · exact ihc false
      simp [hs, ih]

/-- What holds of the heads of a document and of what is bound, resolved or not, holds after
substitution. -/
theorem forall_heads_fillAll {p : Head → Prop} (hr : ∀ h, p h → p h.resolved)
    (hb : ∀ name f, bound name = some f → ∀ g ∈ headsAll f.content, p g) (binding : Bool)
    (items : List Content) (hp : ∀ g ∈ headsAll items, p g) :
    ∀ g ∈ headsAll (fillAll bound binding items).content, p g := by
  induction items using list_induction generalizing binding with
  | nil => exact hp
  | text s rest ih => simpa using ih binding (by simpa using hp)
  | node h cs rest ihc ih =>
    have hh : p h := hp h (by simp)
    have hcs : ∀ g ∈ headsAll cs, p g := fun g hg => hp g (by simp [hg])
    have hrest : ∀ g ∈ headsAll rest, p g := fun g hg => hp g (by simp [hg])
    by_cases hk : (binding || !h.isYield) = true
    · rw [fillAll_kept bound hk]
      intro g hg
      simp only [headsAll_node, List.mem_cons, List.mem_append] at hg
      rcases hg with rfl | hg | hg
      · exact hh
      · exact ihc _ hcs g hg
      · exact ih _ hrest g hg
    · obtain ⟨rfl, hy⟩ : binding = false ∧ h.isYield = true := by simpa using hk
      rw [fillAll_placeholder bound hy]
      have hs : ∀ g ∈ headsAll (standIn bound h.placeholder (fillAll bound false cs)).content,
          p g := by
        unfold standIn
        split
        · rename_i f hf
          obtain ⟨name, _, hname⟩ := Option.bind_eq_some_iff.1 hf
          exact hb name f hname
        · split
          · simp
          · exact ihc false hcs
      intro g hg
      simp only [headsAll_node, List.mem_cons, List.mem_append] at hg
      rcases hg with rfl | hg | hg
      · exact hr h hh
      · exact hs g hg
      · exact ih false hrest g hg

end Content

namespace SlotMap

/-- Slots are closed where no child binds a placeholder. -/
theorem closed_ofChildren {children : List Content} (hb : Content.bindsClosed children = true) :
    (ofChildren children).Closed := fun s hs =>
  List.all_eq_true.1 hb s (mem_of_mem_ofChildren hs)

/-- A slot holds what substitution in a copy of its content leaves, by the other slots. -/
theorem fill_eq (slots : SlotMap) (items : List Content) :
    slots.fill items = Content.fillAll (fun name => (slots.get? name).map fun content =>
      (slots.erase name).fill (Content.copyAll content)) false items := by
  rw [fill]
  congr 1
  funext name
  split <;> simp_all

/-- A copy of content without placeholders is left as it is, whatever the slots hold. -/
theorem fill_copy {slots : SlotMap} {content : List Content} (hc : Content.closed false content = true) :
    slots.fill (Content.copyAll content) = ⟨Content.copyAll content, []⟩ := by
  rw [fill_eq, Content.fillAll_copy_of_closed _ hc]

/-- Slots without placeholders are inserted as they are. -/
theorem fill_of_closed {slots : SlotMap} (hs : slots.Closed) (items : List Content) :
    slots.fill items = Content.fillAll
      (fun name => (slots.get? name).map fun content => ⟨Content.copyAll content, []⟩) false items := by
  rw [fill_eq]
  congr 1
  funext name
  cases hc : slots.get? name with
  | none => rfl
  | some content => rw [Option.map_some, Option.map_some, fill_copy (hs _ (mem_of_get? hc))]

/-- **Substitution leaves no placeholder.** -/
theorem closed_fill (slots : SlotMap) (items : List Content) :
    Content.closed false (slots.fill items).content = true := by
  induction slots, items using fill.induct with
  | case1 slots items ih =>
    rw [fill_eq]
    refine Content.closed_fillAll (fun name f hf => ?_) false items
    obtain ⟨content, hc, rfl⟩ := Option.map_eq_some_iff.1 hf
    exact ih name content hc

/-- **No head comes from elsewhere.**  What holds of the heads of a document and of the bound content,
resolved, copied or not, holds after substitution. -/
theorem forall_heads_fill {p : Head → Prop} (hr : ∀ h, p h → p h.resolved)
    (hm : ∀ h, p h → p { h with mark := none }) (slots : SlotMap) (items : List Content)
    (hs : ∀ s ∈ slots, ∀ g ∈ Content.headsAll s.2, p g) (hi : ∀ g ∈ Content.headsAll items, p g) :
    ∀ g ∈ Content.headsAll (slots.fill items).content, p g := by
  induction slots, items using fill.induct with
  | case1 slots items ih =>
    rw [fill_eq]
    refine Content.forall_heads_fillAll hr (fun name f hf => ?_) false items hi
    obtain ⟨content, hc, rfl⟩ := Option.map_eq_some_iff.1 hf
    refine ih name content hc (fun s hs' => hs s (List.mem_filter.1 hs').1) ?_
    rw [Content.headsAll_copyAll]
    intro g hg
    obtain ⟨g', hg', rfl⟩ := List.mem_map.1 hg
    exact hm g' (hs _ (mem_of_get? hc) g' hg')

end SlotMap

namespace Content

mutual

/-- An item with its placeholders replaced by what `slots` hold as it is; `binding` tells whether it
is a direct child of an include. -/
def substItem (slots : SlotMap) (binding : Bool) : Content → Content
  | .text s => .text s
  | .node h cs =>
    if binding || !h.isYield then .node h (subst slots h.isInclude cs)
    else
      match h.placeholder.name.bind slots.get? with
      | some content => .node h.resolved (copyAll content)
      | none => .node h.resolved (if h.placeholder.isOptional then [] else subst slots false cs)

/-- A content list with its placeholders replaced by what `slots` hold as it is. -/
def subst (slots : SlotMap) (binding : Bool) : List Content → List Content
  | [] => []
  | item :: rest => substItem slots binding item :: subst slots binding rest

end

end Content

/-- **Substitution is a plain recursion.**  If no bound content holds a placeholder, it is inserted as
it is. -/
theorem SlotMap.fill_eq_subst {slots : SlotMap} (hs : slots.Closed) (items : List Content) :
    (slots.fill items).content = Content.subst slots false items := by
  rw [fill_of_closed hs]
  generalize false = binding
  induction items using Content.list_induction generalizing binding with
  | nil => rfl
  | text s rest ih => simp [Content.subst, Content.substItem, ih]
  | node h cs rest ihc ih =>
    by_cases hk : (binding || !h.isYield) = true
    · rw [Content.fillAll_kept _ hk]
      simp only [Content.subst, Content.substItem, if_pos hk, ihc, ih]
    · obtain ⟨rfl, hy⟩ : binding = false ∧ h.isYield = true := by simpa using hk
      rw [Content.fillAll_placeholder _ hy]
      simp only [Content.subst, Content.substItem, if_neg hk, ih, Content.standIn]
      cases hn : h.placeholder.name with
      | none =>
        by_cases ho : h.placeholder.isOptional = true <;> simp [ho, ihc]
      | some name =>
        cases hc : slots.get? name with
        | none => by_cases ho : h.placeholder.isOptional = true <;> simp [hc, ho, ihc]
        | some content => simp [hc]

end PageComposer
