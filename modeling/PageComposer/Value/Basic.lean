/-
# Values

What a configuration file, an environment variable or a JSON text holds.

| value | from |
| --- | --- |
| `null`, `bool`, `int`, `float`, `text` | all three |
| `list`, `map` | all three; the entries of a map keep the order in which their keys came |
| `date`, `moment`, `bytes`, `set`, `pair` | configuration files only |

Two keys of a map are one key when they are equal as numbers or as texts: `1`, `1.0` and `true` are
one key, and the key that came first stays.
-/

import PageComposer.Decimal.Binary64
import PageComposer.Value.Calendar

namespace PageComposer

open Decimal (Binary64)

/-- A dynamic value. -/
inductive Value where
  | null
  | bool (b : Bool)
  | int (n : Int)
  | float (x : Binary64)
  | text (s : String)
  | list (items : List Value)
  | map (entries : List (Value × Value))
  | date (d : Date)
  | moment (m : Moment)
  | bytes (bs : List UInt8)
  | set (items : List Value)
  | pair (first second : Value)
  deriving Inhabited, Repr

/-- The entries of a map in order. -/
abbrev Entries := List (Value × Value)

namespace Value

/-- The integer that a key is equal to. -/
def keyInt? : Value → Option Int
  | .bool b => some (if b then 1 else 0)
  | .int n => some n
  | .float x => x.toInt?
  | _ => none

/-- Whether two keys are one key. -/
def sameKey (a b : Value) : Bool :=
  match a.keyInt?, b.keyInt? with
  | some m, some n => m == n
  | none, none =>
    match a, b with
    | .null, .null => true
    | .float x, .float y => x == y && x != .nan
    | .text s, .text t => s == t
    | .date d, .date e => d == e
    | .moment m, .moment n => m == n
    | .bytes x, .bytes y => x == y
    | _, _ => false
  | _, _ => false

@[simp] theorem sameKey_text (s t : String) : sameKey (.text s) (.text t) = (s == t) := rfl

/-- Whether a value may be a key: it has no parts that could change. -/
def isKey : Value → Bool
  | .list _ | .map _ | .set _ => false
  | .pair a b => a.isKey && b.isKey
  | _ => true

/-- Whether a value counts as present: not null, false, zero or empty. -/
def isTruthy : Value → Bool
  | .null => false
  | .bool b => b
  | .int n => n != 0
  | .float x => x != .finite false 0 (-1074) && x != .finite true 0 (-1074)
  | .text s => s != ""
  | .list items => !items.isEmpty
  | .map entries => !entries.isEmpty
  | .bytes bs => !bs.isEmpty
  | .set items => !items.isEmpty
  | .date _ | .moment _ | .pair .. => true

end Value

namespace Entries

/-- The value at a key. -/
def get? (es : Entries) (key : Value) : Option Value :=
  (es.find? fun e => Value.sameKey e.1 key).map (·.2)

/-- `es` with `value` at `key`: an entry keeps its place and its key, a new one comes last. -/
def put (es : Entries) (key value : Value) : Entries :=
  match es with
  | [] => [(key, value)]
  | (k, v) :: rest =>
    if Value.sameKey k key then (k, value) :: rest else (k, v) :: put rest key value

/-- The keys in order. -/
def keys (es : Entries) : List Value :=
  es.map (·.1)

/-- Entries put one after the other into `es`. -/
def putAll (es : Entries) (new : Entries) : Entries :=
  new.foldl (fun acc e => put acc e.1 e.2) es

/-- The value at a text key. -/
def at? (es : Entries) (key : String) : Option Value :=
  es.get? (.text key)

@[simp] theorem get?_nil (key : Value) : get? [] key = none := rfl

theorem get?_cons (k v : Value) (rest : Entries) (key : Value) :
    get? ((k, v) :: rest) key = if Value.sameKey k key then some v else get? rest key := by
  unfold get?
  by_cases h : Value.sameKey k key <;> simp [List.find?, h]

/-- A present key stays in its place, an absent one comes last. -/
theorem keys_put (es : Entries) (key value : Value) :
    keys (put es key value) = if (es.get? key).isSome then keys es else keys es ++ [key] := by
  induction es with
  | nil => rfl
  | cons e rest ih =>
    obtain ⟨k, v⟩ := e
    by_cases h : Value.sameKey k key
    · simp [put, get?_cons, h, keys]
    · simp only [put, h, get?_cons, if_false, Bool.false_eq_true]
      simp only [keys, List.map_cons] at ih ⊢
      rw [ih]
      split <;> simp

end Entries

end PageComposer
