/-
# Values at key paths

A path of keys leads through maps to a value (`Value.reach?`).  Setting a value at a path of texts makes maps
on the way where there are none, and puts the value at its end (`Entries.setPath`):

| path | what it leads to afterwards |
| --- | --- |
| the path itself | the value that was set (`reach?_setPath_self`) |
| one that neither begins with it nor is its beginning | what it led to before (`reach?_setPath_of_apart`) |
-/

import PageComposer.Config.Merge
import PageComposer.Proofs.Value.Keys

namespace PageComposer

namespace Value

/-- The value at the end of a path of keys; every key leads into a map. -/
def reach? : List Value → Value → Option Value
  | [], v => some v
  | key :: rest, .map es => (Entries.get? es key).bind (reach? rest)
  | _ :: _, _ => none

@[simp] theorem reach?_nil (v : Value) : reach? [] v = some v := rfl

@[simp] theorem reach?_cons_map (key : Value) (rest : List Value) (es : Entries) :
    reach? (key :: rest) (.map es) = (Entries.get? es key).bind (reach? rest) := rfl

/-- A value is reached through its entries, as those of no map are none. -/
theorem reach?_within {path : List Value} (h : path ≠ []) (v : Option Value) :
    v.bind (reach? path) = reach? path (.map (Entries.within v)) := by
  obtain ⟨key, rest, rfl⟩ := List.exists_cons_of_ne_nil h
  cases v with
  | none => rfl
  | some v => cases v <;> rfl

end Value

namespace Entries

open Value (reach?)

/-- A path of texts, as keys. -/
abbrev texts (path : List String) : List Value := path.map .text

theorem texts_prefix_iff {p q : List String} : texts p <+: texts q ↔ p <+: q :=
  List.prefix_map_iff_of_injective fun _ _ h => Value.text.inj h

/-- Two paths of which neither begins with the other. -/
def Apart (p q : List Value) : Prop := ¬ p <+: q ∧ ¬ q <+: p

theorem apart_texts_iff {p q : List String} : Apart (texts p) (texts q) ↔ ¬ p <+: q ∧ ¬ q <+: p := by
  rw [Apart, texts_prefix_iff, texts_prefix_iff]

/-- Setting one more key sets the rest of the path in the entries at that key. -/
theorem setPath_cons (es : Entries) (value : Value) (key : String) {rest : List String} (h : rest ≠ []) :
    setPath es value (key :: rest) =
      put es (.text key) (.map (setPath (within (at? es key)) value rest)) := by
  obtain ⟨next, rest, rfl⟩ := List.exists_cons_of_ne_nil h
  rfl

/-- **A path leads to what was set at it.** -/
theorem reach?_setPath_self (es : Entries) (value : Value) {path : List String} (h : path ≠ []) :
    reach? (texts path) (.map (setPath es value path)) = some value := by
  induction path generalizing es with
  | nil => exact absurd rfl h
  | cons key rest ih =>
    have hkey : Value.sameKey (.text key) (.text key) = true := by simp
    by_cases hrest : rest = []
    · subst hrest
      simp [texts, setPath, get?_put]
    · rw [setPath_cons es value key hrest, texts, List.map_cons, Value.reach?_cons_map, get?_put,
        if_pos hkey]
      exact ih _ hrest

/-- **A path leads to what it led to before a value was set apart from it.** -/
theorem reach?_setPath_of_apart (es : Entries) (value : Value) {path : List String} {q : List Value}
    (h : Apart (texts path) q) : reach? q (.map (setPath es value path)) = reach? q (.map es) := by
  induction path generalizing es q with
  | nil => exact absurd List.nil_prefix h.1
  | cons key rest ih =>
    cases q with
    | nil => exact absurd List.nil_prefix h.2
    | cons k q =>
      by_cases hk : Value.sameKey (.text key) k = true
      · -- both paths go into the same entry, where they are apart
        obtain rfl := Value.sameKey_text_iff.1 hk
        have hq : Apart (texts rest) q :=
          ⟨fun hp => h.1 (List.cons_prefix_cons.2 ⟨rfl, hp⟩),
            fun hp => h.2 (List.cons_prefix_cons.2 ⟨rfl, hp⟩)⟩
        have hrest : rest ≠ [] := fun hnil => hq.1 (hnil ▸ List.nil_prefix)
        have hqne : q ≠ [] := fun hnil => hq.2 (hnil ▸ List.nil_prefix)
        rw [setPath_cons es value key hrest, Value.reach?_cons_map, Value.reach?_cons_map, get?_put,
          if_pos hk, Option.bind_some, ih _ hq, Value.reach?_within hqne]
        rfl
      · -- the entry at `k` is not touched
        have hput : ∃ v, setPath es value (key :: rest) = put es (.text key) v := by
          by_cases hrest : rest = []
          · exact ⟨value, by rw [hrest]; rfl⟩
          · exact ⟨_, setPath_cons es value key hrest⟩
        obtain ⟨v, hv⟩ := hput
        rw [hv, Value.reach?_cons_map, Value.reach?_cons_map, get?_put, if_neg hk]

end Entries
end PageComposer
