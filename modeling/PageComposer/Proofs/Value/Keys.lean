/-
# Keys of maps

Two keys are one key where both have one form (`Value.sameKey_iff`): a number has the form of its value, a text
its own, and a list none.  So being one key is symmetric and transitive, but not reflexive: nothing finds the key
NaN, or one that has parts.

Entries are a map where no two of their keys are one key (`Entries.Distinct`).

| entry | is put where |
| --- | --- |
| its key is there | it was (`put_eq_map`) |
| its key is new | at the end (`put_eq_append`) |
-/

import PageComposer.Value.Basic

namespace PageComposer

namespace Value

/-- What a key is found by. -/
def keyForm? (v : Value) : Option Value :=
  match v.keyInt? with
  | some n => some (.int n)
  | none =>
    match v with
    | .null | .text _ | .date _ | .moment _ | .bytes _ => some v
    | .float x => if x = .nan then none else some v
    | _ => none

/-- **Keys are one key where they are found by the same.** -/
theorem sameKey_iff {a b : Value} :
    sameKey a b = true ↔ ∃ f, a.keyForm? = some f ∧ b.keyForm? = some f := by
  unfold sameKey keyForm?
  cases ha : a.keyInt? with
  | some m =>
    cases hb : b.keyInt? with
    | some n => grind
    | none => cases b <;> simp_all [keyInt?]
  | none =>
    cases hb : b.keyInt? with
    | some n => cases a <;> simp_all [keyInt?]
    | none => cases a <;> cases b <;> simp_all [keyInt?] <;> grind

theorem sameKey_symm {a b : Value} (h : sameKey a b = true) : sameKey b a = true := by
  obtain ⟨f, ha, hb⟩ := sameKey_iff.1 h
  exact sameKey_iff.2 ⟨f, hb, ha⟩

theorem sameKey_trans {a b c : Value} (hab : sameKey a b = true) (hbc : sameKey b c = true) :
    sameKey a c = true := by
  obtain ⟨f, ha, hb⟩ := sameKey_iff.1 hab
  obtain ⟨g, hb', hc⟩ := sameKey_iff.1 hbc
  obtain rfl := Option.some.inj (hb.symm.trans hb')
  exact sameKey_iff.2 ⟨f, ha, hc⟩

/-- A text is the same key as that text alone. -/
theorem sameKey_text_iff {s : String} {key : Value} : sameKey (.text s) key = true ↔ key = .text s := by
  constructor
  · intro h
    obtain ⟨f, hf, hk⟩ := sameKey_iff.1 h
    obtain rfl : .text s = f := Option.some.inj hf
    unfold keyForm? at hk
    grind
  · rintro rfl
    simp

/-- Keys that are one key are the same as the same others. -/
theorem sameKey_congr_left {a b : Value} (h : sameKey a b = true) (c : Value) : sameKey a c = sameKey b c :=
  Bool.eq_iff_iff.2 ⟨sameKey_trans (sameKey_symm h), sameKey_trans h⟩

theorem sameKey_congr_right {a b : Value} (h : sameKey a b = true) (c : Value) : sameKey c a = sameKey c b :=
  Bool.eq_iff_iff.2 ⟨fun hc => sameKey_trans hc h, fun hc => sameKey_trans hc (sameKey_symm h)⟩

end Value

namespace Entries

open Value (sameKey)

/-- No two keys are one key. -/
def Distinct (es : Entries) : Prop := es.Pairwise fun x y => sameKey x.1 y.1 = false

instance (es : Entries) : Decidable (Distinct es) := inferInstanceAs (Decidable (List.Pairwise _ es))

theorem distinct_cons {k v : Value} {rest : Entries} :
    Distinct ((k, v) :: rest) ↔ (∀ e ∈ rest, sameKey k e.1 = false) ∧ Distinct rest :=
  List.pairwise_cons

theorem distinct_iff_keys {es : Entries} :
    Distinct es ↔ (keys es).Pairwise fun k k' => sameKey k k' = false := by
  rw [Distinct, keys, List.pairwise_map]

/-- Nothing is at a key that is no key of the entries. -/
theorem get?_eq_none_iff {es : Entries} {key : Value} :
    get? es key = none ↔ ∀ e ∈ es, sameKey e.1 key = false := by
  simp [get?]

theorem exists_of_get?_eq_some {es : Entries} {key v : Value} (h : get? es key = some v) :
    ∃ k, (k, v) ∈ es ∧ sameKey k key = true := by
  obtain ⟨e, he, rfl⟩ := Option.map_eq_some_iff.1 h
  have hkey := List.find?_some he
  exact ⟨e.1, List.mem_of_find?_eq_some he, hkey⟩

/-- At its key is the value of an entry, where the key is found at all. -/
theorem get?_of_mem {es : Entries} (hes : Distinct es) {e : Value × Value} (he : e ∈ es) {key : Value}
    (hkey : sameKey e.1 key = true) : get? es key = some e.2 := by
  induction es with
  | nil => cases he
  | cons first rest ih =>
    obtain ⟨k, v⟩ := first
    obtain ⟨hk, hrest⟩ := distinct_cons.1 hes
    rw [get?_cons]
    rcases List.mem_cons.1 he with rfl | he
    · rw [if_pos hkey]
    · have hne : ¬ sameKey k key = true := by
        rw [← Value.sameKey_congr_right hkey k, hk e he]
        exact Bool.false_ne_true
      rw [if_neg hne]
      exact ih hrest he

/-- Keys that are one key lead to one value. -/
theorem get?_congr (es : Entries) {k key : Value} (h : sameKey k key = true) : get? es k = get? es key := by
  simp only [get?, fun e : Value × Value => Value.sameKey_congr_right h e.1]

/-- Keys of entries behind an entry are others than its own, whichever comes first. -/
theorem get?_eq_none_of_distinct_cons {k v : Value} {rest : Entries} (h : Distinct ((k, v) :: rest)) :
    get? rest k = none :=
  get?_eq_none_iff.2 fun e he => Bool.eq_false_iff.2 fun hkey =>
    Bool.false_ne_true (((distinct_cons.1 h).1 e he).symm.trans (Value.sameKey_symm hkey))

/-- What is at a key after a value was put at one. -/
theorem get?_put (es : Entries) (k v key : Value) :
    get? (put es k v) key = if sameKey k key then some v else get? es key := by
  induction es with
  | nil => rw [put, get?_cons]
  | cons e rest ih =>
    obtain ⟨k', v'⟩ := e
    by_cases hk : sameKey k' k = true
    · rw [put, if_pos hk, get?_cons, get?_cons, Value.sameKey_congr_left hk]
      split <;> rfl
    · rw [put, if_neg hk, get?_cons, get?_cons, ih]
      by_cases hkey : sameKey k' key = true
      · have : ¬ sameKey k key = true := fun h =>
          hk (Value.sameKey_trans hkey (Value.sameKey_symm h))
        rw [if_pos hkey, if_pos hkey, if_neg this]
      · rw [if_neg hkey, if_neg hkey]

/-- **A new key comes last.** -/
theorem put_eq_append {es : Entries} {k : Value} (h : get? es k = none) (v : Value) :
    put es k v = es ++ [(k, v)] := by
  induction es with
  | nil => rfl
  | cons e rest ih =>
    obtain ⟨k', v'⟩ := e
    rw [get?_eq_none_iff, List.forall_mem_cons] at h
    rw [put, if_neg (by rw [h.1]; exact Bool.false_ne_true), ih (get?_eq_none_iff.2 h.2), List.cons_append]

/-- **Entries with new keys are put behind those that are there**, in their order. -/
theorem putAll_eq_append {es new : Entries} (h : Distinct (es ++ new)) : putAll es new = es ++ new := by
  induction new generalizing es with
  | nil => exact (List.append_nil es).symm
  | cons e rest ih =>
    have hnone : get? es e.1 = none := get?_eq_none_iff.2 fun x hx =>
      (List.pairwise_append.1 h).2.2 x hx e (List.mem_cons_self ..)
    have hsplit : es ++ [(e.1, e.2)] ++ rest = es ++ e :: rest := List.append_assoc ..
    rw [putAll, List.foldl_cons, put_eq_append hnone, ← hsplit]
    exact ih (hsplit ▸ h)

/-- **A key that is there keeps its place and gets the value.** -/
theorem put_eq_map {es : Entries} (hes : Distinct es) {k : Value} (h : get? es k ≠ none) (v : Value) :
    put es k v = es.map fun e => if sameKey e.1 k then (e.1, v) else e := by
  induction es with
  | nil => exact absurd rfl h
  | cons e rest ih =>
    obtain ⟨k', v'⟩ := e
    obtain ⟨hk', hrest⟩ := distinct_cons.1 hes
    rw [put, List.map_cons]
    by_cases hk : sameKey k' k = true
    · have hother : ∀ e ∈ rest, (if sameKey e.1 k then (e.1, v) else e) = e := by
        intro e he
        rw [← Value.sameKey_congr_right hk e.1, if_neg]
        exact fun h => Bool.false_ne_true ((hk' e he).symm.trans (Value.sameKey_symm h))
      rw [if_pos hk, if_pos hk, List.map_congr_left hother, List.map_id']
    · rw [get?_cons, if_neg hk] at h
      rw [if_neg hk, if_neg hk, ih hrest h]

theorem distinct_put {es : Entries} (h : Distinct es) (k v : Value) : Distinct (put es k v) := by
  rw [distinct_iff_keys, keys_put]
  split
  · exact distinct_iff_keys.1 h
  · rename_i hnew
    rw [Bool.not_eq_true, Option.isSome_eq_false_iff, Option.isNone_iff_eq_none, get?_eq_none_iff] at hnew
    refine List.pairwise_append.2 ⟨distinct_iff_keys.1 h, List.pairwise_singleton .., fun x hx y hy => ?_⟩
    obtain ⟨e, he, rfl⟩ := List.mem_map.1 hx
    rw [List.mem_singleton.1 hy]
    exact hnew e he

end Entries
end PageComposer
