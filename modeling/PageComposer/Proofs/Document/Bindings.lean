/-
# Which binding of a name counts

The slots of an include list every name that its children bind once, at the place of the first binding,
with the content of the last (`SlotMap.get?_ofChildren_cons`). So slots are determined by their names in
order and by the content under each name (`SlotMap.ext_names`).

A child counts if it is the last one that binds its name (`SlotMap.counts`). An argument about children goes
over them by whether the first one counts (`SlotMap.children_induction`).
-/

import PageComposer.Expansion.Directive
import PageComposer.Proofs.Document.Heads

namespace PageComposer
namespace SlotMap

/-- The names of slots, in order. -/
def names (slots : SlotMap) : List String := slots.map Prod.fst

@[simp] theorem names_nil : names [] = [] := rfl

@[simp] theorem names_cons (s : String × List Content) (rest : SlotMap) :
    names (s :: rest) = s.1 :: names rest := rfl

@[simp] theorem get?_nil (name : String) : get? [] name = none := rfl

theorem get?_cons (s : String × List Content) (rest : SlotMap) (name : String) :
    get? (s :: rest) name = if s.1 == name then some s.2 else get? rest name := by
  simp only [get?, List.find?_cons]
  split <;> simp_all

theorem get?_bind (slots : SlotMap) (n name : String) (content : List Content) :
    (slots.bind n content).get? name = if n == name then some content else slots.get? name := by
  induction slots with
  | nil => simp [bind, get?_cons]
  | cons s rest ih =>
    obtain ⟨m, c⟩ := s
    simp only [bind]
    by_cases hm : m = n
    · subst hm
      simp only [beq_self_eq_true, if_true, get?_cons]
      split <;> rfl
    · simp only [beq_iff_eq, hm, if_false, get?_cons, ih]
      by_cases hn : m = name
      · subst hn
        simp [Ne.symm hm]
      · simp [hn]

/-- Binding adds a name at the end, unless it is there. -/
theorem names_bind (slots : SlotMap) (n : String) (content : List Content) :
    (slots.bind n content).names = if n ∈ slots.names then slots.names else slots.names ++ [n] := by
  induction slots with
  | nil => simp [bind]
  | cons s rest ih =>
    obtain ⟨m, c⟩ := s
    simp only [bind]
    by_cases hm : m = n
    · simp [hm]
    · simp only [beq_iff_eq, hm, if_false, names_cons, ih, List.mem_cons, Ne.symm hm, false_or]
      split <;> simp

theorem nodup_names_bind {slots : SlotMap} (hd : slots.names.Nodup) (n : String)
    (content : List Content) : (slots.bind n content).names.Nodup := by
  rw [names_bind]
  split
  · exact hd
  · rename_i hn
    exact List.nodup_append.2 ⟨hd, by simp, fun a ha b hb hab => hn (by simp_all)⟩

theorem mem_of_mem_bind {slots : SlotMap} {n : String} {content : List Content}
    {s : String × List Content} (hs : s ∈ slots.bind n content) : s ∈ slots ∨ s = (n, content) := by
  induction slots with
  | nil => simpa [bind] using hs
  | cons t rest ih =>
    obtain ⟨m, c⟩ := t
    simp only [bind] at hs
    split at hs
    · rename_i hm
      obtain rfl : m = n := by simpa using hm
      rcases List.mem_cons.1 hs with rfl | hs
      · exact .inr rfl
      · exact .inl (List.mem_cons_of_mem _ hs)
    · rcases List.mem_cons.1 hs with rfl | hs
      · exact .inl (List.mem_cons_self ..)
      · exact (ih hs).imp (List.mem_cons_of_mem _) id

/-- Bindings after `slots` go before what `slots` hold. -/
theorem get?_foldl_bind (pairs : List (String × List Content)) (slots : SlotMap) (name : String) :
    (pairs.foldl (fun slots p => slots.bind p.1 p.2) slots).get? name =
      ((ofBindings pairs).get? name).or (slots.get? name) := by
  induction pairs generalizing slots with
  | nil => simp [ofBindings]
  | cons p rest ih =>
    simp only [ofBindings, List.foldl_cons]
    rw [ih, ih (bind [] p.1 p.2), get?_bind, get?_bind]
    cases (ofBindings rest).get? name with
    | some c => simp
    | none => by_cases hp : p.1 = name <;> simp [hp]

theorem get?_ofBindings_cons (p : String × List Content) (rest : List (String × List Content))
    (name : String) :
    (ofBindings (p :: rest)).get? name =
      ((ofBindings rest).get? name).or (if p.1 == name then some p.2 else none) := by
  have h := get?_foldl_bind rest (bind [] p.1 p.2) name
  rwa [get?_bind, get?_nil] at h

/-- Which names are bound, and in which order, depends on the names of the bindings alone. -/
theorem names_ofBindings_congr {pairs pairs' : List (String × List Content)}
    (hn : pairs.map Prod.fst = pairs'.map Prod.fst) :
    (ofBindings pairs).names = (ofBindings pairs').names := by
  have go : ∀ (pairs pairs' : List (String × List Content)) (slots slots' : SlotMap),
      pairs.map Prod.fst = pairs'.map Prod.fst → slots.names = slots'.names →
      (pairs.foldl (fun slots p => slots.bind p.1 p.2) slots).names =
        (pairs'.foldl (fun slots p => slots.bind p.1 p.2) slots').names := by
    intro pairs
    induction pairs with
    | nil =>
      intro pairs' slots slots' hp hs
      rw [List.map_nil] at hp
      rw [List.map_eq_nil_iff.1 hp.symm]
      exact hs
    | cons p rest ih =>
      intro pairs' slots slots' hp hs
      cases pairs' with
      | nil => simp at hp
      | cons p' rest' =>
        simp only [List.map_cons, List.cons.injEq] at hp
        refine ih rest' _ _ hp.2 ?_
        rw [names_bind, names_bind, hs, hp.1]
  exact go pairs pairs' [] [] hn rfl

theorem nodup_names_ofBindings (pairs : List (String × List Content)) :
    (ofBindings pairs).names.Nodup := by
  have go : ∀ (pairs : List (String × List Content)) (slots : SlotMap), slots.names.Nodup →
      (pairs.foldl (fun slots p => slots.bind p.1 p.2) slots).names.Nodup := by
    intro pairs
    induction pairs with
    | nil => exact fun _ hs => hs
    | cons p rest ih => exact fun slots hs => ih _ (nodup_names_bind hs p.1 p.2)
  exact go pairs [] (by simp)

theorem mem_of_mem_ofBindings {pairs : List (String × List Content)} {s : String × List Content}
    (hs : s ∈ ofBindings pairs) : s ∈ pairs := by
  have go : ∀ (pairs : List (String × List Content)) (slots : SlotMap),
      s ∈ pairs.foldl (fun slots p => slots.bind p.1 p.2) slots → s ∈ slots ∨ s ∈ pairs := by
    intro pairs
    induction pairs with
    | nil => exact fun _ h => .inl h
    | cons p rest ih =>
      intro slots h
      rcases ih _ h with h | h
      · refine (mem_of_mem_bind h).imp id fun h => ?_
        rw [h]
        exact List.mem_cons_self ..
      · exact .inr (List.mem_cons_of_mem _ h)
  simpa using go pairs [] hs

/-- **Slots are determined by their names and what is under each.** -/
theorem ext_names {slots slots' : SlotMap} (hn : slots.names = slots'.names)
    (hd : slots.names.Nodup) (hg : ∀ name ∈ slots.names, slots.get? name = slots'.get? name) :
    slots = slots' := by
  induction slots generalizing slots' with
  | nil => exact (List.map_eq_nil_iff.1 hn.symm).symm
  | cons s rest ih =>
    cases slots' with
    | nil => simp at hn
    | cons s' rest' =>
      simp only [names_cons, List.cons.injEq, List.nodup_cons] at hn hd
      have hs := hg s.1 (by simp)
      simp only [get?_cons, hn.1, beq_self_eq_true, if_true, Option.some.injEq] at hs
      have hrest : rest = rest' := by
        refine ih hn.2 hd.2 fun name hname => ?_
        have hne : s.1 ≠ name := fun h => hd.1 (h ▸ hname)
        have h := hg name (by simp [hname])
        rwa [get?_cons, get?_cons, if_neg (by simpa using hne), if_neg (by simpa [← hn.1] using hne)]
          at h
      rw [hrest, Prod.ext hn.1 hs]

theorem isSome_get?_iff {slots : SlotMap} {name : String} :
    (slots.get? name).isSome = true ↔ name ∈ slots.names := by
  induction slots with
  | nil => simp
  | cons s rest ih =>
    rw [get?_cons, names_cons, List.mem_cons, ← ih]
    by_cases hs : s.1 = name
    · simp [hs]
    · simp [hs, Ne.symm hs]

/-! ### The slots of an include -/

/-- **The last binding of a name counts.** -/
theorem get?_ofChildren_cons (item : Content) (rest : List Content) (name : String) :
    (ofChildren (item :: rest)).get? name =
      ((ofChildren rest).get? name).or
        ((binding? item).bind fun b => if b.1 == name then some b.2 else none) := by
  unfold ofChildren
  cases hb : binding? item with
  | none => rw [List.filterMap_cons_none hb]; simp
  | some b => rw [List.filterMap_cons_some hb, get?_ofBindings_cons]; rfl

/-- A slot is one of the bindings. -/
theorem mem_of_mem_ofChildren {children : List Content} {s : String × List Content}
    (hs : s ∈ ofChildren children) : s ∈ children.filterMap binding? :=
  mem_of_mem_ofBindings hs

theorem nodup_names_ofChildren (children : List Content) : (ofChildren children).names.Nodup :=
  nodup_names_ofBindings _

theorem mem_of_get? {slots : SlotMap} {name : String} {content : List Content}
    (h : slots.get? name = some content) : (name, content) ∈ slots := by
  induction slots with
  | nil => simp at h
  | cons s rest ih =>
    rw [get?_cons] at h
    split at h
    · rename_i hs
      obtain rfl : s.1 = name := by simpa using hs
      obtain rfl := Option.some.inj h
      exact List.mem_cons_self ..
    · exact List.mem_cons_of_mem _ (ih h)

/-- A name is bound where some child binds it. -/
theorem isSome_get?_ofChildren (children : List Content) (name : String) :
    ((ofChildren children).get? name).isSome = children.any (binds name) := by
  induction children with
  | nil => rfl
  | cons item rest ih =>
    rw [get?_ofChildren_cons, List.any_cons, ← ih, binds]
    cases (ofChildren rest).get? name with
    | some c => simp
    | none =>
      cases binding? item with
      | none => rfl
      | some b => by_cases hb : b.1 = name <;> simp [hb]

/-! ### Bindings -/

theorem binding?_node (h : Head) (cs : List Content) :
    binding? (.node h cs) = if h.isYield then (h.textAttr? "name").map (·, cs) else none := rfl

theorem binding?_eq_none {h : Head} (hy : h.isYield = false) (cs : List Content) :
    binding? (.node h cs) = none := by
  rw [binding?_node, if_neg (by simp [hy])]

/-- The name that a node binds does not depend on its content. -/
theorem map_fst_binding? (h : Head) (cs cs' : List Content) :
    (binding? (.node h cs)).map Prod.fst = (binding? (.node h cs')).map Prod.fst := by
  rw [binding?_node, binding?_node]
  split
  · simp [Function.comp_def]
  · rfl

theorem snd_of_binding? {h : Head} {cs c : List Content} {name : String}
    (hb : binding? (.node h cs) = some (name, c)) : c = cs := by
  rw [binding?_node] at hb
  split at hb
  · obtain ⟨_, _, heq⟩ := Option.map_eq_some_iff.1 hb
    exact (Prod.mk.inj heq).2.symm
  · cases hb

/-- What binds a name goes on binding it with other content. -/
theorem binding?_with {h : Head} {cs : List Content} {name : String}
    (hb : binding? (.node h cs) = some (name, cs)) (cs' : List Content) :
    binding? (.node h cs') = some (name, cs') := by
  rw [binding?_node] at hb ⊢
  split at hb
  · rename_i hy
    rw [if_pos hy]
    obtain ⟨n, hn, heq⟩ := Option.map_eq_some_iff.1 hb
    rw [hn, (Prod.mk.inj heq).1]
    rfl
  · cases hb

/-! ### Children that count -/

/-- Whether a child of an include counts: it is the last one that binds its name. -/
def counts (item : Content) (rest : List Content) : Bool :=
  (binding? item).any fun b => !rest.any (binds b.1)

theorem counts_eq_not {item : Content} {b : String × List Content} (hb : binding? item = some b)
    (rest : List Content) : counts item rest = !rest.any (binds b.1) := by
  rw [counts, hb, Option.any_some]

/-- A child that counts binds a name that no later one binds. -/
theorem counts_eq_true {item : Content} {rest : List Content} (hc : counts item rest = true) :
    ∃ h cs name, item = .node h cs ∧ binding? (.node h cs) = some (name, cs) ∧
      rest.any (binds name) = false := by
  cases item with
  | text s => cases hc
  | node h cs =>
    unfold counts at hc
    cases hb : binding? (.node h cs) with
    | none => rw [hb] at hc; cases hc
    | some b =>
      obtain ⟨name, c⟩ := b
      rw [hb] at hc
      obtain rfl := snd_of_binding? hb
      exact ⟨h, c, name, rfl, hb, by simpa using hc⟩

/-- The name of a child that does not count is bound again. -/
theorem any_binds_of_loser {item : Content} {rest : List Content} (hc : counts item rest = false)
    {b : String × List Content} (hb : binding? item = some b) : rest.any (binds b.1) = true := by
  rwa [counts_eq_not hb, Bool.not_eq_false'] at hc

theorem counts_of_winner {h : Head} {cs rest : List Content} {name : String}
    (hb : binding? (.node h cs) = some (name, cs)) (hlast : rest.any (binds name) = false) :
    counts (.node h cs) rest = true := by
  rw [counts_eq_not hb, hlast, Bool.not_false]

theorem any_binds_eq_contains (children : List Content) (name : String) :
    children.any (binds name) = ((children.filterMap binding?).map Prod.fst).contains name := by
  induction children with
  | nil => rfl
  | cons child children ih =>
    rw [List.any_cons, ih, binds]
    cases hb : binding? child with
    | none => rw [List.filterMap_cons_none hb, Bool.false_or]
    | some b => rw [List.filterMap_cons_some hb, List.map_cons, List.contains_cons, BEq.comm]

theorem any_binds_congr {children children' : List Content}
    (hn : (children'.filterMap binding?).map Prod.fst = (children.filterMap binding?).map Prod.fst)
    (name : String) : children'.any (binds name) = children.any (binds name) := by
  rw [any_binds_eq_contains, any_binds_eq_contains, hn]

/-- Whether a child counts is a matter of the names that it and the later ones bind. -/
theorem counts_congr {item item' : Content} {rest rest' : List Content}
    (hi : (binding? item').map Prod.fst = (binding? item).map Prod.fst)
    (hr : (rest'.filterMap binding?).map Prod.fst = (rest.filterMap binding?).map Prod.fst) :
    counts item' rest' = counts item rest := by
  have hcounts : ∀ (child : Content) (children : List Content),
      counts child children = ((binding? child).map Prod.fst).any fun name => !children.any (binds name) := by
    intro child children
    rw [counts, Option.any_map]
  rw [hcounts, hcounts, hi]
  simp only [any_binds_congr hr]

/-- Induction on the children of an include, by whether the first of them counts. -/
@[elab_as_elim] theorem children_induction {motive : List Content → Prop} (nil : motive [])
    (loser : ∀ item rest, counts item rest = false → motive rest → motive (item :: rest))
    (winner : ∀ h cs rest name, binding? (.node h cs) = some (name, cs) →
      rest.any (binds name) = false → motive rest → motive (.node h cs :: rest)) :
    ∀ children, motive children := by
  intro children
  induction children with
  | nil => exact nil
  | cons item rest ih =>
    cases hc : counts item rest with
    | false => exact loser item rest hc ih
    | true =>
      obtain ⟨h, cs, name, rfl, hb, hlast⟩ := counts_eq_true hc
      exact winner h cs rest name hb hlast ih

/-- A child that does not count leaves the slots of the others as they are. -/
theorem get?_ofChildren_of_loser {item : Content} {rest : List Content} (hc : counts item rest = false)
    (name : String) : (ofChildren (item :: rest)).get? name = (ofChildren rest).get? name := by
  rw [get?_ofChildren_cons]
  cases hb : binding? item with
  | none => simp
  | some b =>
    have hany := any_binds_of_loser hc hb
    by_cases hn : b.1 = name
    · rw [hn, ← isSome_get?_ofChildren] at hany
      obtain ⟨c, hget⟩ := Option.isSome_iff_exists.1 hany
      rw [hget, Option.some_or]
    · simp [hn]

/-- The slot of a child that counts holds its content. -/
theorem get?_ofChildren_of_winner {h : Head} {cs rest : List Content} {name : String}
    (hb : binding? (.node h cs) = some (name, cs)) (hlast : rest.any (binds name) = false)
    (name' : String) :
    (ofChildren (.node h cs :: rest)).get? name' =
      if name == name' then some cs else (ofChildren rest).get? name' := by
  rw [get?_ofChildren_cons, hb, Option.bind_some]
  by_cases hn : name = name'
  · have hnone : (ofChildren rest).get? name' = none := by
      rw [← Option.not_isSome_iff_eq_none, isSome_get?_ofChildren, ← hn, hlast]
      exact Bool.false_ne_true
    simp [hn, hnone]
  · simp [hn]

theorem any_binds_cons_of_loser {item : Content} {rest : List Content} (hc : counts item rest = false)
    (name : String) : (item :: rest).any (binds name) = rest.any (binds name) := by
  rw [← isSome_get?_ofChildren, ← isSome_get?_ofChildren, get?_ofChildren_of_loser hc]

/-- Slots hold every name that the children bind. -/
def Covers (slots : SlotMap) (children : List Content) : Prop :=
  ∀ name, children.any (binds name) = true → (slots.get? name).isSome = true

theorem covers_of_names {slots : SlotMap} {children : List Content}
    (hn : slots.names = (ofChildren children).names) : slots.Covers children := fun name hany => by
  rw [isSome_get?_iff, hn, ← isSome_get?_iff, isSome_get?_ofChildren, hany]

theorem Covers.tail {slots : SlotMap} {item : Content} {rest : List Content}
    (hs : slots.Covers (item :: rest)) : slots.Covers rest := fun name hany => hs name (by simp [hany])

theorem putBack_of_loser (slots : SlotMap) {item : Content} {rest : List Content}
    (hc : counts item rest = false) : putBack slots (item :: rest) = item :: putBack slots rest := by
  cases item with
  | text s => rw [putBack]
  | node h cs =>
    rw [putBack]
    split
    · rfl
    · rename_i name c hb
      rw [if_pos (any_binds_of_loser hc hb)]

theorem putBack_of_winner (slots : SlotMap) {h : Head} {cs rest : List Content} {name : String}
    (hb : binding? (.node h cs) = some (name, cs)) (hlast : rest.any (binds name) = false) :
    putBack slots (.node h cs :: rest) =
      .node h ((slots.get? name).getD cs) :: putBack slots rest := by
  rw [putBack]
  simp only [hb, hlast, Bool.false_eq_true, if_false]

end SlotMap
end PageComposer
