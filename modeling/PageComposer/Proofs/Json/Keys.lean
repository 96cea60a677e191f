/-
# Which values JSON can write

Writing a value fails only for a key: one that is a date, a byte string or a tuple has no JSON form.  Where all
keys in a value have one (`Json.IsWritable`), it is written (`Json.write_of_isWritable`).

| value | can be written where |
| --- | --- |
| list, tuple | its items can |
| map | its keys have JSON forms (`Json.IsKey`) and its values can be written |
| any other | always |
-/

import PageComposer.Json.Writer

namespace PageComposer
namespace Json

/-- A key that has a JSON form. -/
def IsKey (key : Value) : Prop := ∃ s, keyText key = .ok s

mutual

/-- All keys in a value have JSON forms. -/
def IsWritable : Value → Prop
  | .list items => AreWritable items
  | .map es => HasWritable es
  | .pair a b => IsWritable a ∧ IsWritable b
  | _ => True

/-- All values of a list can be written. -/
def AreWritable : List Value → Prop
  | [] => True
  | v :: rest => IsWritable v ∧ AreWritable rest

/-- All entries of a map can be written. -/
def HasWritable : List (Value × Value) → Prop
  | [] => True
  | (k, v) :: rest => IsKey k ∧ IsWritable v ∧ HasWritable rest

end

@[simp] theorem isWritable_list (items : List Value) : IsWritable (.list items) ↔ AreWritable items := by
  rw [IsWritable]

@[simp] theorem isWritable_map (es : Entries) : IsWritable (.map es) ↔ HasWritable es := by
  rw [IsWritable]

mutual

theorem writeAt_of_isWritable (indent : Option Int) (depth : Nat) (v : Value) (h : IsWritable v) :
    ∃ s, writeAt indent depth v = .ok s := by
  cases v with
  | list items =>
    obtain ⟨parts, hparts⟩ := writeItems_of_areWritable indent (depth + 1) items ((isWritable_list _).1 h)
    exact ⟨_, by rw [writeAt, hparts]; rfl⟩
  | map es =>
    obtain ⟨parts, hparts⟩ := writeEntries_of_hasWritable indent (depth + 1) es ((isWritable_map _).1 h)
    exact ⟨_, by rw [writeAt, hparts]; rfl⟩
  | pair a b =>
    rw [IsWritable] at h
    obtain ⟨x, hx⟩ := writeAt_of_isWritable indent (depth + 1) a h.1
    obtain ⟨y, hy⟩ := writeAt_of_isWritable indent (depth + 1) b h.2
    exact ⟨_, by rw [writeAt, hx, hy]; rfl⟩
  | _ => exact ⟨_, by rw [writeAt] <;> nofun⟩

theorem writeItems_of_areWritable (indent : Option Int) (depth : Nat) (items : List Value)
    (h : AreWritable items) : ∃ parts, writeItems indent depth items = .ok parts := by
  match items with
  | [] => exact ⟨[], rfl⟩
  | v :: rest =>
    rw [AreWritable] at h
    obtain ⟨x, hx⟩ := writeAt_of_isWritable indent depth v h.1
    obtain ⟨xs, hxs⟩ := writeItems_of_areWritable indent depth rest h.2
    exact ⟨_, by rw [writeItems, hx, hxs]; rfl⟩

theorem writeEntries_of_hasWritable (indent : Option Int) (depth : Nat) (es : List (Value × Value))
    (h : HasWritable es) : ∃ parts, writeEntries indent depth es = .ok parts := by
  match es with
  | [] => exact ⟨[], rfl⟩
  | (k, v) :: rest =>
    rw [HasWritable] at h
    obtain ⟨key, hkey⟩ := h.1
    obtain ⟨x, hx⟩ := writeAt_of_isWritable indent depth v h.2.1
    obtain ⟨xs, hxs⟩ := writeEntries_of_hasWritable indent depth rest h.2.2
    exact ⟨_, by rw [writeEntries, hkey, hx, hxs]; rfl⟩

end

end Json
end PageComposer
