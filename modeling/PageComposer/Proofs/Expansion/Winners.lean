/-
# Which children of an include count

The last binding of each name counts (`SlotMap.winners`), and all other children are ignored
(`SlotMap.losers`).  The children that count bind the same under each name (`SlotMap.get?_winners`); the names
can stand in another order then, since a name has the place of its first binding.
-/

import PageComposer.Proofs.Expansion.Tally

namespace PageComposer
namespace SlotMap

/-- The children of an include that count. -/
def winners : List Content → List Content
  | [] => []
  | item :: rest => if counts item rest then item :: winners rest else winners rest

/-- The children of an include that are ignored: texts, elements, yields without a name, and bindings of a
name that is bound again. -/
def losers : List Content → List Content
  | [] => []
  | item :: rest => if counts item rest then losers rest else item :: losers rest

theorem winners_of_loser {item : Content} {rest : List Content} (hc : counts item rest = false) :
    winners (item :: rest) = winners rest := by
  rw [winners, hc, if_neg Bool.false_ne_true]

theorem winners_of_winner {item : Content} {rest : List Content} (hc : counts item rest = true) :
    winners (item :: rest) = item :: winners rest := by
  rw [winners, if_pos hc]

theorem losers_of_loser {item : Content} {rest : List Content} (hc : counts item rest = false) :
    losers (item :: rest) = item :: losers rest := by
  rw [losers, hc, if_neg Bool.false_ne_true]

theorem losers_of_winner {item : Content} {rest : List Content} (hc : counts item rest = true) :
    losers (item :: rest) = losers rest := by
  rw [losers, if_pos hc]

/-- A child that counts binds a name, and its content is that of the slot. -/
theorem get?_ofChildren_of_mem_winners {children : List Content} {item : Content}
    (hw : item ∈ winners children) :
    ∃ b, binding? item = some b ∧ (ofChildren children).get? b.1 = some b.2 := by
  induction children using children_induction with
  | nil => cases hw
  | loser first rest hc ih =>
    rw [winners_of_loser hc] at hw
    obtain ⟨b, hb, hget⟩ := ih hw
    exact ⟨b, hb, by rw [get?_ofChildren_of_loser hc, hget]⟩
  | winner h cs rest name hb hlast ih =>
    rw [winners_of_winner (counts_of_winner hb hlast)] at hw
    rcases List.mem_cons.1 hw with rfl | hw
    · exact ⟨(name, cs), hb, by rw [get?_ofChildren_of_winner hb hlast, if_pos (beq_self_eq_true name)]⟩
    · obtain ⟨b, hb', hget⟩ := ih hw
      exact ⟨b, hb', by rw [get?_ofChildren_cons, hget]; rfl⟩

/-! ### The children that count -/

theorem winners_sublist (children : List Content) : (winners children).Sublist children := by
  induction children with
  | nil => exact .slnil
  | cons item rest ih =>
    rw [winners]
    split
    · exact ih.cons_cons item
    · exact ih.cons item

theorem losers_sublist (children : List Content) : (losers children).Sublist children := by
  induction children with
  | nil => exact .slnil
  | cons item rest ih =>
    rw [losers]
    split
    · exact ih.cons item
    · exact ih.cons_cons item

/-- A child counts or is ignored. -/
theorem winners_append_losers_perm (children : List Content) :
    (winners children ++ losers children).Perm children := by
  induction children with
  | nil => exact .refl _
  | cons item rest ih =>
    rw [winners, losers]
    split
    · exact ih.cons item
    · exact List.perm_middle.trans (ih.cons item)

/-- Without later bindings a child that counts goes on counting. -/
theorem counts_of_subset {item : Content} {rest rest' : List Content} (hsub : rest' ⊆ rest)
    (hc : counts item rest = true) : counts item rest' = true := by
  unfold counts at hc ⊢
  cases hb : binding? item with
  | none => rw [hb] at hc; cases hc
  | some b =>
    rw [hb] at hc
    simp only [Option.any_some, Bool.not_eq_true', List.any_eq_false] at hc ⊢
    exact fun item' hm => hc item' (hsub hm)

/-- **All children that count go on counting** when the others are gone. -/
theorem winners_winners (children : List Content) :
    winners (winners children) = winners children ∧ losers (winners children) = [] := by
  induction children with
  | nil => exact ⟨rfl, rfl⟩
  | cons item rest ih =>
    rw [winners]
    split
    · rename_i hc
      have hc := counts_of_subset (winners_sublist rest).subset hc
      rw [winners, losers, if_pos hc, if_pos hc, ih.1, ih.2]
      exact ⟨rfl, rfl⟩
    · exact ih

/-- They bind the same under each name. -/
theorem get?_winners (children : List Content) (name : String) :
    (ofChildren (winners children)).get? name = (ofChildren children).get? name := by
  induction children using children_induction with
  | nil => rfl
  | loser item rest hc ih => rw [winners_of_loser hc, ih, get?_ofChildren_of_loser hc]
  | winner h cs rest n hb hlast ih =>
    rw [winners_of_winner (counts_of_winner hb hlast), get?_ofChildren_cons, get?_ofChildren_cons, ih]

/-- Bindings of different names are slots as they stand. -/
theorem ofBindings_of_nodup {pairs : List (String × List Content)} (hd : (pairs.map Prod.fst).Nodup) :
    ofBindings pairs = pairs := by
  have bound : ∀ (slots : SlotMap) (p : String × List Content), p.1 ∉ slots.names →
      slots.bind p.1 p.2 = slots ++ [p] := by
    intro slots p hp
    induction slots with
    | nil => rfl
    | cons s rest ih =>
      rw [names_cons, List.mem_cons, not_or] at hp
      simp [bind, Ne.symm hp.1, ih hp.2]
  have go : ∀ (pairs : List (String × List Content)) (slots : SlotMap),
      (slots.names ++ pairs.map Prod.fst).Nodup →
      pairs.foldl (fun slots p => slots.bind p.1 p.2) slots = slots ++ pairs := by
    intro pairs
    induction pairs with
    | nil => simp
    | cons p rest ih =>
      intro slots hd
      have hp : p.1 ∉ slots.names := fun hm =>
        (List.nodup_append.1 hd).2.2 _ hm _ (List.mem_cons_self ..) rfl
      rw [List.foldl_cons, bound slots p hp, ih _ (by simpa [names] using hd)]
      simp
  exact go pairs [] (by simpa using hd)

/-- The slots of the children that count, as they stand. -/
theorem ofChildren_winners (children : List Content) :
    ofChildren (winners children) = (winners children).filterMap binding? := by
  refine ofBindings_of_nodup ?_
  induction children using children_induction with
  | nil => exact List.nodup_nil
  | loser item rest hc ih => rwa [winners_of_loser hc]
  | winner h cs rest name hb hlast ih =>
    rw [winners_of_winner (counts_of_winner hb hlast), List.filterMap_cons_some hb, List.map_cons,
      List.nodup_cons]
    refine ⟨fun hm => ?_, ih⟩
    obtain ⟨b, hb', heq⟩ := List.mem_map.1 hm
    obtain ⟨item, hitem, hbind⟩ := List.mem_filterMap.1 hb'
    rw [List.any_eq_false] at hlast
    exact hlast item ((winners_sublist rest).subset hitem) (by simp [binds, hbind, heq])

theorem ofChildren_winners_perm (children : List Content) :
    (ofChildren children).Perm (ofChildren (winners children)) :=
  perm_of_get?_eq (nodup_names_ofChildren _) (nodup_names_ofChildren _) fun name =>
    (get?_winners children name).symm

/-! ### Changed children -/

theorem get?_map (slots : SlotMap) (g : List Content → List Content) (name : String) :
    get? (slots.map fun s => (s.1, g s.2)) name = (slots.get? name).map g := by
  induction slots with
  | nil => rfl
  | cons s rest ih =>
    rw [List.map_cons, get?_cons, get?_cons, ih]
    split <;> rfl

section

variable {f : Content → Content} {g : List Content → List Content}
  (hf : ∀ item, binding? (f item) = (binding? item).map fun b => (b.1, g b.2))

include hf

theorem counts_map (item : Content) (rest : List Content) :
    counts (f item) (rest.map f) = counts item rest := by
  have hbinds : ∀ name, binds name ∘ f = binds name := fun name => funext fun item => by
    simp only [Function.comp_apply, binds_eq, hf, Option.map_map]
    rfl
  unfold counts
  rw [hf, Option.any_map]
  simp only [List.any_map, hbinds]

/-- Where only the content of bindings is changed, the same children count. -/
theorem winners_map (children : List Content) : winners (children.map f) = (winners children).map f := by
  induction children with
  | nil => rfl
  | cons item rest ih =>
    rw [List.map_cons, winners, winners, counts_map hf, ih]
    split <;> rfl

theorem losers_map (children : List Content) : losers (children.map f) = (losers children).map f := by
  induction children with
  | nil => rfl
  | cons item rest ih =>
    rw [List.map_cons, losers, losers, counts_map hf, ih]
    split <;> rfl

theorem ofChildren_map (children : List Content) :
    ofChildren (children.map f) = (ofChildren children).map fun s => (s.1, g s.2) := by
  have hbind : ∀ (slots : SlotMap) (p : String × List Content),
      bind (slots.map fun s => (s.1, g s.2)) p.1 (g p.2) =
        (bind slots p.1 p.2).map fun s => (s.1, g s.2) := by
    intro slots p
    induction slots with
    | nil => rfl
    | cons s rest ih =>
      simp only [List.map_cons, bind, ih]
      split <;> rfl
  have go : ∀ (pairs : List (String × List Content)) (slots : SlotMap),
      (pairs.map fun b => (b.1, g b.2)).foldl (fun slots p => bind slots p.1 p.2)
          (slots.map fun s => (s.1, g s.2)) =
        (pairs.foldl (fun slots p => bind slots p.1 p.2) slots).map fun s => (s.1, g s.2) := by
    intro pairs
    induction pairs with
    | nil => exact fun _ => rfl
    | cons p rest ih =>
      intro slots
      rw [List.map_cons, List.foldl_cons, List.foldl_cons, ← ih, ← hbind]
  have hpairs : (children.map f).filterMap binding? =
      (children.filterMap binding?).map fun b => (b.1, g b.2) := by
    rw [List.filterMap_map, List.map_filterMap]
    exact List.filterMap_congr fun item _ => hf item
  rw [ofChildren, hpairs]
  exact go _ []

end

end SlotMap
end PageComposer
