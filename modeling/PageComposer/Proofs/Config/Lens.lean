/-
# Setting as a lens

Setting a value at a path of texts puts one value at the first key, in the place of the one that is there
(`Entries.setPath_eq_put`).  So what two settings do follows from what putting twice does, key by key.

| two values put | give |
| --- | --- |
| at one key | what the second alone gives (`put_put_self`) |
| at two keys | in either order the same entries, up to their order (`put_put_perm`) |

Where two paths go on below one key, both settings are made in the map that is there, or in one that the first of
them made in the place of a leaf.  So two settings that are apart give one map in either order, up to the order of
the keys in the map at which their paths part (`Entries.setPath_reordered`).  A map on the way to what is set is the
same map with the rest of the path set in it (`Entries.reach?_setPath_append`), and gets one key at most, at its end
(`Entries.keys_setPath`).
-/

import PageComposer.Proofs.Config.Paths

namespace PageComposer
namespace Entries

open Value (sameKey reach?)

/-! ### Putting twice -/

/-- A value is put in one place, whatever it is. -/
theorem exists_put_eq (es : Entries) (key : Value) :
    ∃ before k after, ∀ v, put es key v = before ++ (k, v) :: after := by
  induction es with
  | nil => exact ⟨[], key, [], fun _ => rfl⟩
  | cons e rest ih =>
    obtain ⟨k, old⟩ := e
    by_cases hkey : sameKey k key = true
    · exact ⟨[], k, rest, fun v => by rw [put, if_pos hkey, List.nil_append]⟩
    · obtain ⟨before, k', after, hput⟩ := ih
      exact ⟨(k, old) :: before, k', after, fun v => by rw [put, if_neg hkey, hput, List.cons_append]⟩

/-- **The last of two values at one key counts.** -/
theorem put_put_self (es : Entries) {key : Value} (hkey : sameKey key key = true) (v w : Value) :
    put (put es key v) key w = put es key w := by
  induction es with
  | nil => simp [put, hkey]
  | cons e rest ih =>
    obtain ⟨k, old⟩ := e
    by_cases hk : sameKey k key = true
    · rw [put, if_pos hk, put, if_pos hk, put, if_pos hk]
    · rw [put, if_neg hk, put, if_neg hk, ih, put, if_neg hk]

/-- **Values at two keys are the same entries in either order.** -/
theorem put_put_perm (es : Entries) {k k' : Value} (h : sameKey k k' = false) (v w : Value) :
    (put (put es k v) k' w).Perm (put (put es k' w) k v) := by
  have hne : ¬ sameKey k k' = true := by rw [h]; exact Bool.false_ne_true
  have hne' : ¬ sameKey k' k = true := fun h' => hne (Value.sameKey_symm h')
  induction es with
  | nil => simpa [put, hne, hne'] using List.Perm.swap ..
  | cons e rest ih =>
    obtain ⟨key, old⟩ := e
    by_cases hk : sameKey key k = true
    · have hk' : ¬ sameKey key k' = true := by rwa [Value.sameKey_congr_left hk]
      rw [put, if_pos hk, put, if_neg hk', put, if_neg hk', put, if_pos hk]
    · by_cases hk' : sameKey key k' = true
      · rw [put, if_neg hk, put, if_pos hk', put, if_pos hk', put, if_neg hk]
      · rw [put, if_neg hk, put, if_neg hk', put, if_neg hk', put, if_neg hk]
        exact ih.cons _

/-! ### Maps up to the order of keys -/

/-- Entries are the same up to the order of keys, in the map and in the maps in it. -/
inductive Reordered : Entries → Entries → Prop
  | perm {es fs : Entries} (h : es.Perm fs) : Reordered es fs
  | inside (before : Entries) (k : Value) {inner inner' : Entries} (after : Entries)
      (h : Reordered inner inner') :
      Reordered (before ++ (k, .map inner) :: after) (before ++ (k, .map inner') :: after)
  | trans {es fs gs : Entries} (h : Reordered es fs) (h' : Reordered fs gs) : Reordered es gs

theorem Reordered.put {inner inner' : Entries} (h : Reordered inner inner') (es : Entries) (key : Value) :
    Reordered (put es key (.map inner)) (put es key (.map inner')) := by
  obtain ⟨before, k, after, hput⟩ := exists_put_eq es key
  rw [hput, hput]
  exact .inside before k after h

/-! ### Setting twice -/

variable {es : Entries} {v w : Value}

/-- What is put at a key where the rest of a path is set below it: the value itself if no path is left, else a map
in which it is set. -/
def setBelow (old : Option Value) (value : Value) : List String → Value
  | [] => value
  | key :: rest => .map (setPath (within old) value (key :: rest))

/-- **Setting puts one value at the first key of the path.** -/
theorem setPath_eq_put (es : Entries) (value : Value) (key : String) (rest : List String) :
    setPath es value (key :: rest) = put es (.text key) (setBelow (at? es key) value rest) := by
  cases rest <;> rfl

theorem at?_put (es : Entries) (key key' : String) (v : Value) :
    at? (put es (.text key) v) key' = if key = key' then some v else at? es key' := by
  simp only [at?, get?_put, Value.sameKey_text, beq_iff_eq]

theorem put_put_text (es : Entries) (key : String) (v w : Value) :
    put (put es (.text key) v) (.text key) w = put es (.text key) w :=
  put_put_self es (by rw [Value.sameKey_text, beq_self_eq_true]) v w

/-- **Setting twice at one path is setting the last value.** -/
theorem setPath_setPath_self (es : Entries) (v w : Value) (path : List String) :
    setPath (setPath es v path) w path = setPath es w path := by
  induction path generalizing es with
  | nil => rfl
  | cons key rest ih =>
    have hbelow : setBelow (some (setBelow (at? es key) v rest)) w rest = setBelow (at? es key) w rest := by
      cases rest with
      | nil => rfl
      | cons next rest => exact congrArg Value.map (ih _)
    rw [setPath_eq_put es, setPath_eq_put, at?_put, if_pos rfl, put_put_text, hbelow, setPath_eq_put]

/-- **Settings that are apart are made in any order**, up to the order of keys. -/
theorem setPath_reordered (es : Entries) (v w : Value) {p q : List String} (hpq : ¬ p <+: q) (hqp : ¬ q <+: p) :
    Reordered (setPath (setPath es v p) w q) (setPath (setPath es w q) v p) := by
  induction p generalizing es q with
  | nil => exact absurd List.nil_prefix hpq
  | cons key rest ih =>
    cases q with
    | nil => exact absurd List.nil_prefix hqp
    | cons key' rest' =>
      by_cases hkey : key = key'
      · -- both go on in the map at the key, where they are apart
        subst hkey
        have hpq' : ¬ rest <+: rest' := fun h => hpq (List.cons_prefix_cons.2 ⟨rfl, h⟩)
        have hqp' : ¬ rest' <+: rest := fun h => hqp (List.cons_prefix_cons.2 ⟨rfl, h⟩)
        have hrest : rest ≠ [] := fun h => hpq' (h ▸ List.nil_prefix)
        have hrest' : rest' ≠ [] := fun h => hqp' (h ▸ List.nil_prefix)
        rw [setPath_cons es v key hrest, setPath_cons _ w key hrest', setPath_cons es w key hrest',
          setPath_cons _ v key hrest, at?_put, at?_put, if_pos rfl, if_pos rfl, put_put_text, put_put_text]
        exact (ih _ hpq' hqp').put es _
      · -- neither sees what the other puts
        have hne : sameKey (.text key) (.text key') = false := by simpa using hkey
        rw [setPath_eq_put es v, setPath_eq_put _ w, setPath_eq_put es w, setPath_eq_put _ v, at?_put, at?_put,
          if_neg hkey, if_neg (Ne.symm hkey)]
        exact .perm (put_put_perm es hne ..)

/-! ### Maps on the way -/

theorem reach?_texts_cons (key : String) (path : List String) (es : Entries) :
    reach? (texts (key :: path)) (.map es) = (at? es key).bind (reach? (texts path)) := rfl

/-- A key is added at the end if it is new. -/
theorem keys_setPath (es : Entries) (v : Value) (key : String) (rest : List String) :
    keys (setPath es v (key :: rest)) = if (at? es key).isSome then keys es else keys es ++ [.text key] := by
  rw [setPath_eq_put, keys_put]
  rfl

/-- **A map on the way has the rest of the path set in it.** -/
theorem reach?_setPath_append (v : Value) {way rest : List String} (hrest : rest ≠ []) {inner : Entries}
    (h : reach? (texts way) (.map es) = some (.map inner)) :
    reach? (texts way) (.map (setPath es v (way ++ rest))) = some (.map (setPath inner v rest)) := by
  induction way generalizing es with
  | nil =>
    obtain rfl := Value.map.inj (Option.some.inj h)
    rfl
  | cons key way ih =>
    rw [reach?_texts_cons] at h
    obtain ⟨u, hu, hinner⟩ := Option.bind_eq_some_iff.1 h
    obtain ⟨below, rfl⟩ : ∃ below, u = .map below := by
      cases u with
      | map below => exact ⟨below, rfl⟩
      | _ => cases way <;> cases hinner
    have hne : way ++ rest ≠ [] := fun hnil => hrest (List.append_eq_nil_iff.1 hnil).2
    rw [List.cons_append, setPath_cons es v key hne, reach?_texts_cons, at?_put, if_pos rfl, hu]
    exact ih hinner

/-- The beginning of a path of texts is a path of texts. -/
theorem exists_eq_texts {r : List Value} {path : List String} (h : r <+: texts path) :
    ∃ way rest, path = way ++ rest ∧ r = texts way := by
  obtain ⟨tail, htail⟩ := h
  obtain ⟨way, rest, hsplit, hway, -⟩ := List.map_eq_append_iff.1 htail.symm
  exact ⟨way, rest, hsplit, hway.symm⟩

/-- **A map that is not replaced** keeps its keys in their order, and gets one more at most, the next of the path, at
their end. -/
theorem keys_of_reach?_setPath (v : Value) {path : List String} {r : List Value} {inner : Entries}
    (hr : ¬ texts path <+: r) (h : reach? r (.map es) = some (.map inner)) :
    ∃ (inner' : Entries) (new : Option Value), reach? r (.map (setPath es v path)) = some (.map inner') ∧
      keys inner' = keys inner ++ new.toList ∧ ∀ k ∈ new, get? inner k = none ∧ r ++ [k] <+: texts path := by
  by_cases hway : r <+: texts path
  · -- the path goes on in the map
    obtain ⟨way, rest, rfl, rfl⟩ := exists_eq_texts hway
    obtain ⟨key, rest, rfl⟩ : ∃ key tail, rest = key :: tail := by
      refine List.exists_cons_of_ne_nil fun hnil => hr ?_
      simp [hnil]
    have hreach := reach?_setPath_append v (List.cons_ne_nil key rest) h
    cases hkey : at? inner key with
    | some old =>
      refine ⟨_, none, hreach, ?_, nofun⟩
      rw [keys_setPath, hkey]
      exact (List.append_nil _).symm
    | none =>
      refine ⟨_, some (.text key), hreach, ?_, ?_⟩
      · rw [keys_setPath, hkey]
        rfl
      · rintro k ⟨⟩
        refine ⟨hkey, texts rest, ?_⟩
        rw [texts, texts, texts, List.map_append, List.map_cons, List.append_assoc, List.singleton_append]
  · refine ⟨inner, none, ?_, (List.append_nil _).symm, nofun⟩
    rw [reach?_setPath_of_apart es v ⟨hr, hway⟩, h]

/-! ### All laws together -/

/-- **Setting at key paths is a lens.**  For entries and values of any kind: the path leads to what was set; a path
apart from it leads to what it led to before, and every map that is not replaced keeps its keys in their order, new
ones last; setting again at the path is setting the last value; and two settings apart from each other give one map
in either order, up to the order of keys. -/
theorem setPath_lens (es : Entries) (v w : Value) (p q : List String) (hp : p ≠ []) :
    reach? (texts p) (.map (setPath es v p)) = some v ∧
      (∀ r, Apart (texts p) r → reach? r (.map (setPath es v p)) = reach? r (.map es)) ∧
      (∀ r inner, ¬ texts p <+: r → reach? r (.map es) = some (.map inner) →
        ∃ (inner' : Entries) (new : Option Value), reach? r (.map (setPath es v p)) = some (.map inner') ∧
          keys inner' = keys inner ++ new.toList ∧ ∀ k ∈ new, get? inner k = none ∧ r ++ [k] <+: texts p) ∧
      setPath (setPath es v p) w p = setPath es w p ∧
      (¬ p <+: q → ¬ q <+: p → Reordered (setPath (setPath es v p) w q) (setPath (setPath es w q) v p)) :=
  ⟨reach?_setPath_self es v hp, fun _ => reach?_setPath_of_apart es v, fun _ _ => keys_of_reach?_setPath v,
    setPath_setPath_self es v w p, setPath_reordered es v w⟩

/-- Two settings below a leaf: the first of them makes a map in its place, and comes first in it. -/
theorem setPath_lens_below_leaf :
    ["paths", "root"] ≠ [] ∧
      ¬ ["paths", "root"] <+: ["paths", "out"] ∧ ¬ ["paths", "out"] <+: ["paths", "root"] ∧
      reach? (texts ["paths", "root"])
        (.map (setPath [(.text "paths", .null), (.text "title", .text "Site")] (.text "src") ["paths", "root"])) =
          some (.text "src") ∧
      Reordered
        [(.text "paths", .map [(.text "root", .text "src"), (.text "out", .text "dist")]),
          (.text "title", .text "Site")]
        [(.text "paths", .map [(.text "out", .text "dist"), (.text "root", .text "src")]),
          (.text "title", .text "Site")] := by
  have hlaws := setPath_lens [(.text "paths", .null), (.text "title", .text "Site")] (.text "src") (.text "dist")
    ["paths", "root"] ["paths", "out"] (by decide)
  exact ⟨by decide, by decide, by decide, hlaws.1, hlaws.2.2.2.2 (by decide) (by decide)⟩

end Entries
end PageComposer
