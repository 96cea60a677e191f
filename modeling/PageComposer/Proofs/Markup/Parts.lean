/-
# Texts with holes

A text may be written around the values of attributes: the values are holes, and what stands in them is given
apart (`Part.writeAll`). A hole takes its equals sign and its quotes with it.

| part | written |
| --- | --- |
| character | itself |
| hole | `="`, what stands in it, `"` |

All that is written for some parts behind a hole is told by `Part.values`, with which the holes of a text are
told apart by what follows them.
-/

import Mathlib.Data.List.TakeWhile

namespace PageComposer

/-- A part of a text with holes. -/
inductive Part (ι : Type) where
  | char (c : Char)
  | value (i : ι)
  deriving Repr, DecidableEq

namespace Part

variable {ι : Type}

/-- A part as it is written, given what stands in the holes. -/
def write (f : ι → List Char) : Part ι → List Char
  | .char c => [c]
  | .value i => '=' :: '"' :: (f i ++ ['"'])

/-- The text that parts make. -/
def writeAll (f : ι → List Char) (ps : List (Part ι)) : List Char := ps.flatMap (write f)

/-- The holes of a text, each with the text behind it. -/
def values (f : ι → List Char) : List (Part ι) → List (ι × List Char)
  | [] => []
  | .char _ :: ps => values f ps
  | .value i :: ps => (i, writeAll f ps) :: values f ps

/-- The holes of a text. -/
def holes (ps : List (Part ι)) : List ι :=
  ps.filterMap fun
    | .char _ => none
    | .value i => some i

variable (f : ι → List Char)

@[simp] theorem writeAll_nil : writeAll f [] = [] := rfl

@[simp] theorem writeAll_char (c : Char) (ps : List (Part ι)) :
    writeAll f (.char c :: ps) = c :: writeAll f ps := rfl

@[simp] theorem writeAll_value (i : ι) (ps : List (Part ι)) :
    writeAll f (.value i :: ps) = '=' :: '"' :: (f i ++ '"' :: writeAll f ps) := by
  simp [writeAll, write]

@[simp] theorem writeAll_append (ps qs : List (Part ι)) :
    writeAll f (ps ++ qs) = writeAll f ps ++ writeAll f qs := List.flatMap_append

@[simp] theorem writeAll_chars (cs : List Char) : writeAll f (cs.map .char) = cs := by
  induction cs with
  | nil => rfl
  | cons c cs ih => rw [List.map_cons, writeAll_char, ih]

@[simp] theorem holes_char (c : Char) (ps : List (Part ι)) : holes (.char c :: ps) = holes ps := rfl

@[simp] theorem holes_value (i : ι) (ps : List (Part ι)) : holes (.value i :: ps) = i :: holes ps := rfl

@[simp] theorem holes_append (ps qs : List (Part ι)) : holes (ps ++ qs) = holes ps ++ holes qs :=
  List.filterMap_append

@[simp] theorem holes_chars (cs : List Char) : holes (cs.map .char : List (Part ι)) = [] := by
  induction cs with
  | nil => rfl
  | cons c cs ih => rw [List.map_cons, holes_char, ih]

variable {f} {ps qs : List (Part ι)}

/-- Only what stands in the holes counts. -/
theorem writeAll_congr {g : ι → List Char} (h : ∀ i ∈ holes ps, f i = g i) : writeAll f ps = writeAll g ps := by
  induction ps with
  | nil => rfl
  | cons part ps ih =>
    cases part with
    | char c => rw [writeAll_char, writeAll_char, ih h]
    | value i =>
      rw [holes_value, List.forall_mem_cons] at h
      rw [writeAll_value, writeAll_value, h.1, ih h.2]

/-- A text is plain up to its first hole. -/
theorem split_first (ps : List (Part ι)) :
    ∃ p : List Char, ps = p.map .char ∨ ∃ i qs, ps = p.map .char ++ .value i :: qs := by
  induction ps with
  | nil => exact ⟨[], .inl rfl⟩
  | cons part ps ih =>
    cases part with
    | value i => exact ⟨[], .inr ⟨i, ps, rfl⟩⟩
    | char c =>
      obtain ⟨p, rfl | ⟨i, qs, rfl⟩⟩ := ih
      · exact ⟨c :: p, .inl rfl⟩
      · exact ⟨c :: p, .inr ⟨i, qs, rfl⟩⟩

@[simp] theorem values_char (f : ι → List Char) (c : Char) (ps : List (Part ι)) :
    values f (.char c :: ps) = values f ps := rfl

@[simp] theorem values_value (f : ι → List Char) (i : ι) (ps : List (Part ι)) :
    values f (.value i :: ps) = (i, writeAll f ps) :: values f ps := rfl

@[simp] theorem values_chars_append (f : ι → List Char) (p : List Char) (qs : List (Part ι)) :
    values f (p.map .char ++ qs) = values f qs := by
  induction p with
  | nil => rfl
  | cons c p ih => exact ih

@[simp] theorem values_chars (f : ι → List Char) (p : List Char) : values f (p.map .char) = [] := by
  induction p with
  | nil => rfl
  | cons c p ih => exact ih

/-- The holes are those that have a text behind them. -/
theorem values_fst (f : ι → List Char) (ps : List (Part ι)) : (values f ps).map Prod.fst = holes ps := by
  induction ps with
  | nil => rfl
  | cons part ps ih =>
    cases part with
    | char c => exact ih
    | value i => exact congrArg (i :: ·) ih

theorem mem_holes {i : ι} : i ∈ holes ps ↔ ∃ rest, (i, rest) ∈ values f ps := by
  rw [← values_fst f ps, List.mem_map]
  constructor
  · rintro ⟨⟨j, rest⟩, hx, rfl⟩
    exact ⟨rest, hx⟩
  · rintro ⟨rest, hx⟩
    exact ⟨_, hx, rfl⟩

/-- A hole stands in the text, before what is behind it. -/
theorem suffix_of_mem_values {x : ι × List Char} (hx : x ∈ values f ps) :
    '=' :: '"' :: (f x.1 ++ '"' :: x.2) <:+ writeAll f ps := by
  induction ps with
  | nil => cases hx
  | cons part ps ih =>
    cases part with
    | char c => exact (ih hx).trans (List.suffix_cons ..)
    | value i =>
      rcases List.mem_cons.1 hx with rfl | hx
      · exact ⟨[], (writeAll_value f i ps).symm⟩
      · exact (ih hx).trans ⟨'=' :: '"' :: (f i ++ ['"']), by simp⟩

end Part
end PageComposer
