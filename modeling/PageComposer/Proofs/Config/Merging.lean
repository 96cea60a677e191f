/-
# Merging layers

What lies over a map is merged into it as a whole: every entry of the lower map stays in its place with what lies
over it, and the new entries of the upper map follow in their order (`Entries.merge_eq_append`).  From this come
the laws of layers (`Entries.merge_layers`).

| law | argument |
| --- | --- |
| nothing over or under a map changes it | both forms have one part |
| merging the upper map again changes nothing | its entries are there, and each value lies over itself |
| three layers are merged in any order | the same three parts come out, where no leaf of the middle one parts two maps |

What is at a path of keys is told path by path (`Entries.reach?_merge_of_some`, `Entries.reach?_merge_of_open`): the
upper map counts where it has a leaf, the lower one where the upper map is open, that is where it ends before the
path does without a leaf on the way.
-/

import PageComposer.Config.Bundled
import PageComposer.Proofs.Config.Paths
import PageComposer.Proofs.Value.Keys

namespace PageComposer

/-! ### Maps in a value -/

mutual

/-- All maps that a value is made of, down to the first that is none, are such that `P`. -/
def Value.EveryMap (P : Entries → Prop) : Value → Prop
  | .map es => P es ∧ Entries.EachMap P es
  | _ => True

/-- All maps that the values of entries are made of are such that `P`. -/
def Entries.EachMap (P : Entries → Prop) : List (Value × Value) → Prop
  | [] => True
  | (_, v) :: rest => v.EveryMap P ∧ Entries.EachMap P rest

end

/-- A value is a map. -/
def Value.IsMap (v : Value) : Prop := ∃ es, v = .map es

namespace Entries

open Value (sameKey reach?)

theorem eachMap_iff {P : Entries → Prop} {es : Entries} : EachMap P es ↔ ∀ e ∈ es, e.2.EveryMap P := by
  induction es with
  | nil => simp [EachMap]
  | cons e rest ih => rw [EachMap, ih, List.forall_mem_cons]

/-- Entries as they stand in a map, and in the maps in it. -/
def AllMaps (P : Entries → Prop) (es : Entries) : Prop := (Value.map es).EveryMap P

theorem allMaps_iff {P : Entries → Prop} {es : Entries} :
    AllMaps P es ↔ P es ∧ ∀ k inner, (k, .map inner) ∈ es → AllMaps P inner := by
  rw [AllMaps, Value.EveryMap, eachMap_iff]
  refine and_congr_right fun _ => ⟨fun h k inner hmem => h _ hmem, fun h e he => ?_⟩
  obtain ⟨k, v⟩ := e
  cases v with
  | map inner => exact h k inner he
  | _ => trivial

theorem AllMaps.here {P : Entries → Prop} {es : Entries} (h : AllMaps P es) : P es := (allMaps_iff.1 h).1

theorem AllMaps.inner {P : Entries → Prop} {es inner : Entries} (h : AllMaps P es) {k : Value}
    (hmem : (k, .map inner) ∈ es) : AllMaps P inner := (allMaps_iff.1 h).2 k inner hmem

theorem AllMaps.get {P : Entries → Prop} {es inner : Entries} (h : AllMaps P es) {key : Value}
    (hget : get? es key = some (.map inner)) : AllMaps P inner := by
  obtain ⟨k, hmem, -⟩ := exists_of_get?_eq_some hget
  exact h.inner hmem

/-- Induction on how deep maps lie in each other. -/
theorem induction_maps {P : Entries → Prop} (step : ∀ es, (∀ k inner, (k, .map inner) ∈ es → P inner) → P es)
    (es : Entries) : P es := by
  refine step es fun k inner hmem => induction_maps step inner
termination_by sizeOf es
decreasing_by
  have := List.sizeOf_lt_of_mem hmem
  simp only [Prod.mk.sizeOf_spec, Value.map.sizeOf_spec] at this
  omega

/-- A map that is made up as maps are: in it and in the maps in it, no two keys are one key. -/
def WellKeyed (es : Entries) : Prop := AllMaps Distinct es

/-- In a map and in the maps in it, every key is found. -/
def Found (es : Entries) : Prop := AllMaps (fun inner => ∀ e ∈ inner, sameKey e.1 e.1 = true) es

/-! ### The form of a merged map -/

variable {a b c : Entries}

@[simp] theorem mergeOver_none (v : Value) : mergeOver none v = v := by
  cases v <;> rfl

theorem isMap_mergeOver {old : Option Value} {v : Value} : (mergeOver old v).IsMap ↔ v.IsMap := by
  cases v with
  | map es =>
    refine iff_of_true ?_ ⟨es, rfl⟩
    unfold mergeOver
    split <;> exact ⟨_, rfl⟩
  | _ => rfl

theorem mergeOver_of_not_isMap (old : Option Value) {v : Value} (h : ¬ v.IsMap) : mergeOver old v = v := by
  cases v with
  | map es => exact absurd ⟨es, rfl⟩ h
  | _ => rfl

/-- An entry with what lies over it in `upper`. -/
def covered (upper : Entries) (e : Value × Value) : Value × Value :=
  (e.1, ((get? upper e.1).map (mergeOver (some e.2))).getD e.2)

/-- Whether the key of an entry is not there yet. -/
def isNew (es : Entries) (e : Value × Value) : Bool := (get? es e.1).isNone

/-- **What is at a key of a merged map.** -/
theorem get?_merge (a : Entries) (hb : Distinct b) (key : Value) :
    get? (merge a b) key =
      ((get? b key).map (mergeOver (get? a key))).or (get? a key) := by
  induction b generalizing a with
  | nil => rw [merge]; rfl
  | cons e rest ih =>
    obtain ⟨k, v⟩ := e
    rw [merge, ih _ (distinct_cons.1 hb).2, get?_put, get?_cons]
    by_cases hkey : sameKey k key = true
    · have hnone : get? rest key = none := get?_congr rest hkey ▸ get?_eq_none_of_distinct_cons hb
      rw [if_pos hkey, if_pos hkey, hnone, get?_congr a hkey]
      rfl
    · rw [if_neg hkey, if_neg hkey]

theorem get?_merge_eq_none_iff (a : Entries) (hb : Distinct b) {key : Value} :
    get? (merge a b) key = none ↔ get? a key = none ∧ get? b key = none := by
  rw [get?_merge a hb]
  cases get? b key <;> simp

theorem covered_of_none {upper : Entries} {k : Value} (h : get? upper k = none) (v : Value) :
    covered upper (k, v) = (k, v) := by
  rw [covered, h]
  rfl

theorem covered_of_some {upper : Entries} {k w : Value} (h : get? upper k = some w) (v : Value) :
    covered upper (k, v) = (k, mergeOver (some v) w) := by
  rw [covered, h]
  rfl

/-- What is covered by one more entry. -/
theorem covered_cons (k v : Value) (rest : Entries) (e : Value × Value) :
    covered ((k, v) :: rest) e =
      if sameKey e.1 k = true then (e.1, mergeOver (some e.2) v) else covered rest e := by
  by_cases hkey : sameKey e.1 k = true
  · rw [if_pos hkey]
    exact covered_of_some (by rw [get?_cons, if_pos (Value.sameKey_symm hkey)]) e.2
  · have : ¬ sameKey k e.1 = true := fun h => hkey (Value.sameKey_symm h)
    rw [if_neg hkey, covered, covered, get?_cons, if_neg this]

/-- **A merged map is the lower one, covered, and what is new in the upper one.** -/
theorem merge_eq_append (ha : Distinct a) (hb : Distinct b) :
    merge a b = a.map (covered b) ++ b.filter (isNew a) := by
  induction b generalizing a with
  | nil =>
    rw [merge, List.filter_nil, List.append_nil]
    exact (List.map_id'' (fun e => covered_of_none rfl e.2) a).symm
  | cons first rest ih =>
    obtain ⟨k, v⟩ := first
    obtain ⟨hk, hrest⟩ := distinct_cons.1 hb
    have hnone := get?_eq_none_of_distinct_cons hb
    -- what is new behind the entry is not so for the entry that was put
    have hnew (w : Value) : rest.filter (isNew (put a k w)) = rest.filter (isNew a) :=
      List.filter_congr fun e he => by rw [isNew, isNew, get?_put, hk e he]; rfl
    rw [merge, ih (distinct_put ha k _) hrest, hnew]
    cases hget : get? a k with
    | none =>
      have hcovered : a.map (covered ((k, v) :: rest)) = a.map (covered rest) :=
        List.map_congr_left fun e he => by
          rw [covered_cons, get?_eq_none_iff.1 hget e he, if_neg Bool.false_ne_true]
      have hfirst : isNew a (k, v) = true := by rw [isNew, hget]; rfl
      rw [put_eq_append hget, mergeOver_none, List.map_append, List.map_singleton, covered_of_none hnone,
        hcovered, List.filter_cons_of_pos hfirst, List.append_assoc, List.singleton_append]
    | some old =>
      have hfirst : ¬ isNew a (k, v) = true := by rw [isNew, hget]; exact Bool.false_ne_true
      have hne : get? a k ≠ none := by rw [hget]; exact Option.some_ne_none old
      rw [put_eq_map ha hne, List.filter_cons_of_neg hfirst, List.map_map]
      refine congrArg (· ++ _) (List.map_congr_left fun e he => ?_)
      rw [Function.comp_apply, covered_cons]
      by_cases hkey : sameKey e.1 k = true
      · have hold : e.2 = old := Option.some.inj ((get?_of_mem ha he hkey).symm.trans hget)
        have hcovered : get? rest e.1 = none := get?_congr rest hkey ▸ hnone
        rw [if_pos hkey, if_pos hkey, hold]
        exact covered_of_none hcovered _
      · rw [if_neg hkey, if_neg hkey]

/-- **Keys of a merged map:** those of the lower one in their order, and then the new ones in theirs. -/
theorem keys_merge (ha : Distinct a) (hb : Distinct b) :
    keys (merge a b) = keys a ++ (keys b).filter fun k => (get? a k).isNone := by
  rw [merge_eq_append ha hb, keys, List.map_append, List.map_map]
  refine congrArg (keys a ++ ·) ?_
  rw [keys, List.filter_map]
  rfl

theorem distinct_merge (ha : Distinct a) (hb : Distinct b) : Distinct (merge a b) := by
  rw [distinct_iff_keys, keys_merge ha hb]
  refine List.pairwise_append.2 ⟨distinct_iff_keys.1 ha, (distinct_iff_keys.1 hb).filter _, fun x hx y hy => ?_⟩
  obtain ⟨e, he, rfl⟩ := List.mem_map.1 hx
  exact get?_eq_none_iff.1 (Option.isNone_iff_eq_none.1 (List.mem_filter.1 hy).2) e he

/-! ### Laws of layers -/

/-- Nothing is the same under a map. -/
theorem merge_nil_left (hb : Distinct b) : merge [] b = b := by
  rw [merge_eq_append List.Pairwise.nil hb]
  exact List.filter_eq_self.2 fun _ _ => rfl

/-- Nothing is the same over a map. -/
theorem merge_nil_right (a : Entries) : merge a [] = a := rfl

/-- What is at a key where a map lies over it. -/
theorem mergeOver_map (old : Option Value) {new : Entries} (h : Distinct new) :
    mergeOver old (.map new) = .map (merge (within old) new) := by
  unfold mergeOver
  split
  · rfl
  · rename_i hold
    have : within old = [] := by
      unfold within
      split
      · exact absurd rfl (hold _)
      · rfl
    rw [this, merge_nil_left h]

/-- Covering again changes nothing, where merging the maps again does not. -/
theorem mergeOver_mergeOver_self {old : Option Value} {w : Value}
    (h : ∀ new, w = .map new →
      Distinct new ∧ merge (merge (within old) new) new = merge (within old) new) :
    mergeOver (some (mergeOver old w)) w = mergeOver old w := by
  by_cases hmap : w.IsMap
  · obtain ⟨new, rfl⟩ := hmap
    obtain ⟨hnew, hagain⟩ := h new rfl
    rw [mergeOver_map old hnew, mergeOver_map _ hnew, within, hagain]
  · rw [mergeOver_of_not_isMap _ hmap, mergeOver_of_not_isMap _ hmap]

theorem wellKeyed_nil : WellKeyed [] := allMaps_iff.2 ⟨List.Pairwise.nil, fun _ _ h => absurd h List.not_mem_nil⟩

/-- The entries of a value in a map are a map that is made up as maps are. -/
theorem WellKeyed.within_some (ha : WellKeyed a) {e : Value × Value} (he : e ∈ a) :
    WellKeyed (within (some e.2)) := by
  obtain ⟨k, v⟩ := e
  cases v with
  | map inner => exact AllMaps.inner ha he
  | _ => exact wellKeyed_nil

/-- **Merging the upper map again changes nothing.**  The keys of the upper map have to be found for that. -/
theorem merge_merge_self (ha : WellKeyed a) (hb : WellKeyed b) (hfound : Found b) :
    merge (merge a b) b = merge a b := by
  induction b using induction_maps generalizing a with
  | step b ih =>
    -- a value lies over what it covers already
    have hagain (old : Option Value) (hold : WellKeyed (within old)) {e : Value × Value} (he : e ∈ b) :
        mergeOver (some (mergeOver old e.2)) e.2 = mergeOver old e.2 := by
      refine mergeOver_mergeOver_self fun new hnew => ?_
      have hmem : (e.1, Value.map new) ∈ b := hnew ▸ he
      exact ⟨(AllMaps.inner hb hmem).here, ih _ new hmem hold (AllMaps.inner hb hmem) (AllMaps.inner hfound hmem)⟩
    have hkeys : b.filter (isNew (merge a b)) = [] := by
      refine List.filter_eq_nil_iff.2 fun e he hnew => ?_
      have := ((get?_merge_eq_none_iff a hb.here).1 (Option.isNone_iff_eq_none.1 hnew)).2
      exact absurd (get?_eq_none_iff.1 this e he) (by rw [hfound.here e he]; exact Bool.false_ne_true.symm)
    have hcovered : ∀ e ∈ merge a b, covered b e = e := by
      intro e he
      rw [merge_eq_append ha.here hb.here] at he
      rcases List.mem_append.1 he with he | he
      · obtain ⟨⟨k, v⟩, hea, rfl⟩ := List.mem_map.1 he
        cases hget : get? b k with
        | none => rw [covered_of_none hget, covered_of_none hget]
        | some w =>
          obtain ⟨k', hmem, -⟩ := exists_of_get?_eq_some hget
          rw [covered_of_some hget, covered_of_some hget]
          exact congrArg _ (hagain _ (ha.within_some hea) hmem)
      · obtain ⟨k, v⟩ := e
        have heb := (List.mem_filter.1 he).1
        rw [covered_of_some (get?_of_mem hb.here heb (hfound.here _ heb))]
        have := hagain none wellKeyed_nil heb
        rw [mergeOver_none] at this
        rw [this]
    rw [merge_eq_append (distinct_merge ha.here hb.here) hb.here, hkeys, List.append_nil,
      List.map_congr_left hcovered, List.map_id']

/-- At no path is a leaf of the middle one of three maps between maps of the others. -/
def Unparted (a b c : Entries) : Prop :=
  ∀ p w, (∃ x, reach? p (.map a) = some (.map x)) → reach? p (.map b) = some w →
    (∃ z, reach? p (.map c) = some (.map z)) → w.IsMap

/-- What is below a key of three maps is not parted if they are not. -/
theorem Unparted.below (h : Unparted a b c) {key v : Value} {b' c' : Entries} (hv : get? a key = some v)
    (hb : get? b key = some (.map b')) (hc : get? c key = some (.map c')) :
    Unparted (within (some v)) b' c' := by
  intro p w hx hw hz
  cases p with
  | nil => exact ⟨b', (Option.some.inj hw).symm⟩
  | cons k rest =>
    refine h (key :: k :: rest) w ?_ ?_ ?_
    · rw [Value.reach?_cons_map, hv, Value.reach?_within (List.cons_ne_nil k rest)]
      exact hx
    · rw [Value.reach?_cons_map, hb]
      exact hw
    · rw [Value.reach?_cons_map, hc]
      exact hz

/-- A value under two others, where maps of theirs are merged in any order. -/
theorem mergeOver_assoc {v u w : Value} (hw : ∀ c', w = .map c' → Distinct c')
    (hu : ∀ c', w = .map c' → ¬ u.IsMap → ¬ v.IsMap)
    (h : ∀ b' c', u = .map b' → w = .map c' → Distinct b' ∧
      merge (merge (within (some v)) b') c' = merge (within (some v)) (merge b' c')) :
    mergeOver (some (mergeOver (some v) u)) w = mergeOver (some v) (mergeOver (some u) w) := by
  by_cases hwmap : w.IsMap
  · obtain ⟨c', rfl⟩ := hwmap
    have hc' := hw c' rfl
    by_cases humap : u.IsMap
    · obtain ⟨b', rfl⟩ := humap
      obtain ⟨hb', hassoc⟩ := h b' c' rfl rfl
      rw [mergeOver_map _ hb', mergeOver_map _ hc', mergeOver_map _ hc', within, within,
        mergeOver_map _ (distinct_merge hb' hc'), hassoc]
    · -- the leaf hides what is below it, which is a leaf too
      have within_leaf {x : Value} (hx : ¬ x.IsMap) : within (some x) = [] := by
        cases x with
        | map es => exact absurd ⟨es, rfl⟩ hx
        | _ => rfl
      rw [mergeOver_of_not_isMap _ humap, mergeOver_map _ hc', within_leaf humap, merge_nil_left hc',
        mergeOver_map _ hc', within_leaf (hu c' rfl humap), merge_nil_left hc']
  · rw [mergeOver_of_not_isMap _ hwmap, mergeOver_of_not_isMap _ hwmap, mergeOver_of_not_isMap _ hwmap]

/-- **Three layers are merged in any order.** -/
theorem merge_assoc (ha : WellKeyed a) (hb : WellKeyed b) (hc : WellKeyed c) (h : Unparted a b c) :
    merge (merge a b) c = merge a (merge b c) := by
  induction b using induction_maps generalizing a c with
  | step b ih =>
    have hfirst : ∀ e ∈ a, covered c (covered b e) = covered (merge b c) e := by
      rintro ⟨k, v⟩ he
      have hget := get?_merge b hc.here k
      cases hbk : get? b k with
      | none =>
        rw [covered_of_none hbk]
        rw [hbk] at hget
        cases hck : get? c k with
        | none =>
          rw [hck] at hget
          rw [covered_of_none hck, covered_of_none hget]
        | some w =>
          rw [hck, Option.map_some, mergeOver_none] at hget
          rw [covered_of_some hck, covered_of_some hget]
      | some u =>
        rw [covered_of_some hbk]
        rw [hbk] at hget
        cases hck : get? c k with
        | none =>
          rw [hck] at hget
          rw [covered_of_none hck, covered_of_some hget]
        | some w =>
          rw [hck] at hget
          rw [covered_of_some hck, covered_of_some hget]
          obtain ⟨k', hmem, hkey⟩ := exists_of_get?_eq_some hbk
          have hak : get? a k = some v :=
            get?_of_mem ha.here he (Value.sameKey_trans (Value.sameKey_symm hkey) hkey)
          refine congrArg _ (mergeOver_assoc (fun c' hw => ?_) (fun c' hw hu hv => ?_) fun b' c' hu hw => ?_)
          · exact (AllMaps.get hc (hw ▸ hck)).here
          · obtain ⟨x, hx⟩ := hv
            refine hu (h [k] u ⟨x, ?_⟩ ?_ ⟨c', ?_⟩)
            · rw [Value.reach?_cons_map, hak, hx]; rfl
            · rw [Value.reach?_cons_map, hbk]; rfl
            · rw [Value.reach?_cons_map, hck, hw]; rfl
          · subst hu hw
            have hb' := AllMaps.inner hb hmem
            exact ⟨hb'.here, ih k' b' hmem (ha.within_some he) hb' (AllMaps.get hc hck) (h.below hak hbk hck)⟩
    have hsecond : (b.filter (isNew a)).map (covered c) = (b.map (covered c)).filter (isNew a) := by
      rw [List.filter_map]
      rfl
    have hthird : c.filter (isNew (merge a b)) = (c.filter (isNew b)).filter (isNew a) := by
      rw [List.filter_filter]
      refine List.filter_congr fun e _ => Bool.eq_iff_iff.2 ?_
      rw [isNew, Option.isNone_iff_eq_none, get?_merge_eq_none_iff a hb.here, Bool.and_eq_true, isNew, isNew,
        Option.isNone_iff_eq_none, Option.isNone_iff_eq_none]
    rw [merge_eq_append (distinct_merge ha.here hb.here) hc.here, hthird, merge_eq_append ha.here hb.here,
      List.map_append, List.map_map, hsecond, merge_eq_append ha.here (distinct_merge hb.here hc.here),
      ← List.map_congr_left hfirst, merge_eq_append hb.here hc.here, List.filter_append, List.append_assoc]
    rfl

/-! ### What is at a path -/

end Entries

/-- A path of two parts leads through the end of the first. -/
theorem Value.reach?_append (p q : List Value) (v : Value) :
    reach? (p ++ q) v = (reach? p v).bind (reach? q) := by
  induction p generalizing v with
  | nil => rfl
  | cons k p ih =>
    cases v with
    | map es =>
      rw [List.cons_append, reach?_cons_map, reach?_cons_map, Option.bind_assoc]
      exact congrArg _ (funext ih)
    | _ => rfl

/-- Only below a map is there something. -/
theorem Value.isMap_of_reach? {v w : Value} {p : List Value} (hp : p ≠ []) (h : reach? p v = some w) :
    v.IsMap := by
  obtain ⟨k, p, rfl⟩ := List.exists_cons_of_ne_nil hp
  cases v with
  | map es => exact ⟨es, rfl⟩
  | _ => cases h

namespace Entries

open Value (reach?)

variable {a b : Entries}

/-- A map has nothing at a path, and no leaf on the way to it. -/
def OpenAt (es : Entries) (p : List Value) : Prop :=
  reach? p (.map es) = none ∧ ∀ q w, q <+: p → reach? q (.map es) = some w → w.IsMap

/-- **Where the upper map has a value, that value lies over what is there.** -/
theorem reach?_merge_of_some (a : Entries) (hb : WellKeyed b) {p : List Value} {w : Value}
    (h : reach? p (.map b) = some w) :
    reach? p (.map (merge a b)) = some (mergeOver (reach? p (.map a)) w) := by
  induction p generalizing a b with
  | nil =>
    obtain rfl := Option.some.inj h
    rfl
  | cons k p ih =>
    rw [Value.reach?_cons_map] at h
    obtain ⟨u, hu, hw⟩ := Option.bind_eq_some_iff.1 h
    rw [Value.reach?_cons_map, Value.reach?_cons_map, get?_merge a hb.here, hu]
    by_cases hp : p = []
    · subst hp
      obtain rfl := Option.some.inj hw
      cases get? a k <;> rfl
    · obtain ⟨new, rfl⟩ := Value.isMap_of_reach? hp hw
      have hnew := AllMaps.get hb hu
      rw [Option.map_some, Option.some_or, Option.bind_some, mergeOver_map _ hnew.here,
        ih _ hnew hw, Value.reach?_within hp]

/-- **Where the upper map is open, the lower one counts.** -/
theorem reach?_merge_of_openAt (a : Entries) (hb : WellKeyed b) {p : List Value} (h : OpenAt b p) :
    reach? p (.map (merge a b)) = reach? p (.map a) := by
  induction p generalizing a b with
  | nil => cases h.1
  | cons k p ih =>
    obtain ⟨hnone, hway⟩ := h
    rw [Value.reach?_cons_map] at hnone
    rw [Value.reach?_cons_map, Value.reach?_cons_map, get?_merge a hb.here]
    cases hu : get? b k with
    | none => rfl
    | some u =>
      rw [hu, Option.bind_some] at hnone
      have hp : p ≠ [] := fun hnil => by rw [hnil] at hnone; cases hnone
      obtain ⟨new, rfl⟩ : u.IsMap := by
        refine hway [k] u (List.cons_prefix_cons.2 ⟨rfl, List.nil_prefix⟩) ?_
        rw [Value.reach?_cons_map, hu]
        rfl
      have hnew := AllMaps.get hb hu
      rw [Option.map_some, Option.some_or, Option.bind_some, mergeOver_map _ hnew.here, Value.reach?_within hp]
      refine ih _ hnew ⟨hnone, fun q w hq hw => hway (k :: q) w (List.cons_prefix_cons.2 ⟨rfl, hq⟩) ?_⟩
      rw [Value.reach?_cons_map, hu]
      exact hw

/-- Where a merged map has a value and the upper one has none, the upper one is open. -/
theorem openAt_of_reach?_merge (hb : WellKeyed b) {p : List Value} {v : Value}
    (hp : reach? p (.map b) = none) (h : reach? p (.map (merge a b)) = some v) : OpenAt b p := by
  refine ⟨hp, fun q w hq hw => ?_⟩
  obtain ⟨r, rfl⟩ := hq
  have hr : r ≠ [] := fun hnil => by
    rw [hnil, List.append_nil, hw] at hp
    cases hp
  rw [Value.reach?_append, reach?_merge_of_some a hb hw] at h
  exact isMap_mergeOver.1 (Value.isMap_of_reach? hr h)

/-- **A leaf of a merged map is the upper one's, or the lower one's where the upper map is open.** -/
theorem leaf_of_reach?_merge (hb : WellKeyed b) {p : List Value} {v : Value}
    (h : reach? p (.map (merge a b)) = some v) (hv : ¬ v.IsMap) :
    reach? p (.map b) = some v ∨ OpenAt b p ∧ reach? p (.map a) = some v := by
  cases hp : reach? p (.map b) with
  | some w =>
    rw [reach?_merge_of_some a hb hp] at h
    obtain rfl := Option.some.inj h
    rw [isMap_mergeOver] at hv
    rw [mergeOver_of_not_isMap _ hv]
    exact .inl rfl
  | none =>
    have hopen := openAt_of_reach?_merge hb hp h
    exact .inr ⟨hopen, reach?_merge_of_openAt a hb hopen ▸ h⟩

/-- The maps that a map holds are such, too. -/
theorem AllMaps.reach {P : Entries → Prop} {es inner : Entries} (h : AllMaps P es) {p : List Value}
    (hp : reach? p (.map es) = some (.map inner)) : AllMaps P inner := by
  induction p generalizing es with
  | nil =>
    obtain rfl := Value.map.inj (Option.some.inj hp)
    exact h
  | cons k p ih =>
    rw [Value.reach?_cons_map] at hp
    obtain ⟨u, hu, hinner⟩ := Option.bind_eq_some_iff.1 hp
    cases p with
    | nil =>
      obtain rfl := Option.some.inj hinner
      exact h.get hu
    | cons k' p =>
      obtain ⟨es', rfl⟩ := Value.isMap_of_reach? (List.cons_ne_nil k' p) hinner
      exact ih (h.get hu) hinner

/-- The entries at the end of a path; none if no map is there. -/
def entriesAt (es : Entries) (p : List Value) : Entries := within (reach? p (.map es))

theorem WellKeyed.entriesAt (ha : WellKeyed a) (p : List Value) : WellKeyed (entriesAt a p) := by
  rw [Entries.entriesAt]
  cases hp : reach? p (.map a) with
  | none => exact wellKeyed_nil
  | some v =>
    cases v with
    | map es => exact AllMaps.reach ha hp
    | _ => exact wellKeyed_nil

/-- **The keys of every map in a merged map** are those of the lower one in their order, and then the new ones of
the upper one in theirs. -/
theorem keys_of_reach?_merge (ha : WellKeyed a) (hb : WellKeyed b) {p : List Value} {inner : Entries}
    (h : reach? p (.map (merge a b)) = some (.map inner)) :
    keys inner = keys (entriesAt a p) ++ (keys (entriesAt b p)).filter fun k => (get? (entriesAt a p) k).isNone := by
  cases hp : reach? p (.map b) with
  | some w =>
    rw [reach?_merge_of_some a hb hp] at h
    obtain ⟨new, rfl⟩ := isMap_mergeOver.1 ⟨inner, Option.some.inj h⟩
    have hnew := AllMaps.reach hb hp
    rw [mergeOver_map _ hnew.here] at h
    obtain rfl := Value.map.inj (Option.some.inj h)
    rw [entriesAt, entriesAt, hp]
    exact keys_merge (ha.entriesAt p).here hnew.here
  | none =>
    rw [reach?_merge_of_openAt a hb (openAt_of_reach?_merge hb hp h)] at h
    rw [entriesAt, entriesAt, h, hp]
    exact (List.append_nil _).symm

/-! ### All laws together -/

/-- **Merging lays one map over another.**  For maps of any values: nothing is neutral on both sides; merging the
upper map again changes nothing (if its keys are found: of two maps with the key NaN, which is equal to nothing,
each keeps its own); layers are merged in any order, unless a leaf of the middle one is between maps of the others.
Path by path: a leaf of the upper map counts, the lower map counts where the upper one is open, there is no other
leaf, and keys keep their order, the new ones behind. -/
theorem merge_layers (a b c : Entries) (ha : WellKeyed a) (hb : WellKeyed b) (hc : WellKeyed c) :
    merge [] a = a ∧ merge a [] = a ∧
      (Found b → merge (merge a b) b = merge a b) ∧
      (Unparted a b c → merge (merge a b) c = merge a (merge b c)) ∧
      ∀ p,
        (∀ w, reach? p (.map b) = some w → ¬ w.IsMap → reach? p (.map (merge a b)) = some w) ∧
        (OpenAt b p → reach? p (.map (merge a b)) = reach? p (.map a)) ∧
        (∀ v, reach? p (.map (merge a b)) = some v → ¬ v.IsMap →
          reach? p (.map b) = some v ∨ OpenAt b p ∧ reach? p (.map a) = some v) ∧
        ∀ inner, reach? p (.map (merge a b)) = some (.map inner) →
          keys inner =
            keys (entriesAt a p) ++ (keys (entriesAt b p)).filter fun k => (get? (entriesAt a p) k).isNone := by
  refine ⟨merge_nil_left ha.here, merge_nil_right a, merge_merge_self ha hb, merge_assoc ha hb hc, fun p => ?_⟩
  refine ⟨fun w hw hleaf => ?_, reach?_merge_of_openAt a hb, fun v hv hleaf => leaf_of_reach?_merge hb hv hleaf,
    fun inner hinner => keys_of_reach?_merge ha hb hinner⟩
  rw [reach?_merge_of_some a hb hw, mergeOver_of_not_isMap _ hleaf]

/-- A leaf of the middle layer that parts maps of the others makes the order count. -/
example :
    merge (merge [(.text "x", Config.mapOf [("p", .null)])] [(.text "x", .null)]) [(.text "x", .map [])] =
        [(.text "x", .map [])] ∧
      merge [(.text "x", Config.mapOf [("p", .null)])] (merge [(.text "x", .null)] [(.text "x", .map [])]) =
        [(.text "x", Config.mapOf [("p", .null)])] :=
  ⟨rfl, rfl⟩

/-- Settings of a project. -/
def siteLayer : Entries :=
  [(.text "composition", Config.mapOf [("encoding", .text "ascii"), ("theme", .text "dark"), ("root", .text "site")]),
   (.text "title", .text "Site")]

/-- A section that a text takes the place of. -/
def switchedOff : Entries := [(.text "logging", .text "off")]

/-- The bundled settings, those of a project and a section that is switched off. -/
theorem merge_layers_site :
    WellKeyed Config.defaults ∧ WellKeyed siteLayer ∧ WellKeyed switchedOff ∧ Found siteLayer ∧
      Unparted Config.defaults siteLayer switchedOff ∧
      merge (merge Config.defaults siteLayer) siteLayer = merge Config.defaults siteLayer ∧
      merge (merge Config.defaults siteLayer) switchedOff = merge Config.defaults (merge siteLayer switchedOff) ∧
      keys (merge Config.defaults siteLayer) = texts ["composition", "logging", "title"] := by
  have hdefaults : WellKeyed Config.defaults := by
    simp [WellKeyed, AllMaps, Value.EveryMap, EachMap, Config.defaults, Config.mapOf, Distinct]
  have hsite : WellKeyed siteLayer := by
    simp [WellKeyed, AllMaps, Value.EveryMap, EachMap, siteLayer, Config.mapOf, Distinct]
  have hoff : WellKeyed switchedOff := by
    simp [WellKeyed, AllMaps, Value.EveryMap, EachMap, switchedOff, Distinct]
  have hfound : Found siteLayer := by
    simp [Found, AllMaps, Value.EveryMap, EachMap, siteLayer, Config.mapOf, -Prod.forall]
  have hunparted : Unparted Config.defaults siteLayer switchedOff := by
    intro p w _ hw hmap
    obtain ⟨z, hz⟩ := hmap
    cases p with
    | nil => exact ⟨siteLayer, (Option.some.inj hw).symm⟩
    | cons k rest =>
      -- there is a leaf at the one key of the upper layer
      rw [Value.reach?_cons_map, switchedOff, get?_cons] at hz
      split at hz
      · cases rest <;> cases hz
      · cases hz
  obtain ⟨-, -, hagain, hassoc, hpaths⟩ := merge_layers _ _ _ hdefaults hsite hoff
  exact ⟨hdefaults, hsite, hoff, hfound, hunparted, hagain hfound, hassoc hunparted, (hpaths []).2.2.2 _ rfl⟩

end Entries
end PageComposer
