/-
# JSON that is read back

What is written of a value is read back as the value (`read?_write`), if JSON carries it (`Carried`).

| value | carried |
| --- | --- |
| null, truth value, text | always |
| integer | with at most 4300 digits |
| list | if its items are |
| map | if its keys are texts, no two of them the same, and its values are carried |

What is written of a value (`Shown`) is read back with any text behind it that does not go on with a number, and with
fuel for its length. Between items stand a comma and blanks, with an indent or without one.
-/

import PageComposer.Proofs.Json.Literals
import PageComposer.Proofs.Text.Blanks
import PageComposer.Proofs.Value.Keys

namespace PageComposer
namespace Json

/-- The values that JSON carries. -/
inductive Carried : Value → Prop
  | null : Carried .null
  | bool (b : Bool) : Carried (.bool b)
  | int {n : Int} (digits : (Nat.toDigits 10 n.natAbs).length ≤ Decimal.maxDigits) : Carried (.int n)
  | text (s : String) : Carried (.text s)
  | list {items : List Value} (each : ∀ v ∈ items, Carried v) : Carried (.list items)
  | map {es : Entries} (texts : ∀ e ∈ es, ∃ s, e.1 = .text s) (each : ∀ e ∈ es, Carried e.2)
      (distinct : Entries.Distinct es) : Carried (.map es)

/-! ### Blanks -/

theorem isSpace_iff {c : Char} : isSpace c = true ↔ c = ' ' ∨ c = '\t' ∨ c = '\n' ∨ c = '\r' := by
  simp [isSpace, or_assoc]

theorem isSpace_breakAt (indent : Option Int) (depth : Nat) : ∀ c ∈ (breakAt indent depth).toList, isSpace c = true := by
  unfold breakAt
  split
  · nofun
  · rw [String.toList_ofList]
    intro c hc
    rcases List.mem_cons.1 hc with rfl | hc
    · decide
    · rw [List.eq_of_mem_replicate hc]
      decide

/-- Between two items stand a comma and blanks. -/
theorem exists_gap (indent : Option Int) (depth : Nat) :
    ∃ gap, (separator indent depth).toList = ',' :: gap ∧ ∀ c ∈ gap, isSpace c = true := by
  unfold separator
  split
  · exact ⟨[' '], rfl, List.forall_mem_singleton.2 rfl⟩
  · rename_i n
    exact ⟨_, String.toList_append .., isSpace_breakAt (some n) depth⟩

theorem skip_cons {c : Char} (hc : isSpace c = false) (rest : List Char) : skip (c :: rest) = c :: rest :=
  Text.dropWhile_of_head (by simpa using hc)

theorem skip_blanks {blanks rest : List Char} (h : ∀ c ∈ blanks, isSpace c = true) {c : Char}
    (hc : isSpace c = false) : skip (blanks ++ c :: rest) = c :: rest := by
  rw [skip, Text.dropWhile_of_all h]
  exact skip_cons hc rest

theorem stops_cons {c : Char} (hc : Text.isAsciiDigit c = false ∧ c ≠ '.' ∧ c ≠ 'e' ∧ c ≠ 'E') (rest : List Char) :
    Stops (c :: rest) := by
  intro d hd
  obtain rfl := Option.some.inj hd
  exact hc

theorem stops_blanks {blanks rest : List Char} (h : ∀ c ∈ blanks, isSpace c = true) (hrest : Stops rest) :
    Stops (blanks ++ rest) := by
  cases blanks with
  | nil => exact hrest
  | cons c blanks =>
    rcases isSpace_iff.1 (h c (List.mem_cons_self ..)) with rfl | rfl | rfl | rfl
    all_goals exact stops_cons (by decide) _

/-! ### Items -/

/-- A text that is read back as a value wherever it stands. -/
structure Shown (v : Value) (text : List Char) : Prop where
  starts : ∃ c tail, text = c :: tail ∧ isSpace c = false ∧ c ≠ ']'
  reads : ∀ {rest fuel}, Stops rest → text.length < fuel → readValue fuel (text ++ rest) = some (v, rest)

/-- Blanks before a value are passed over. -/
theorem Shown.skip_append {v : Value} {text blanks : List Char} (h : Shown v text)
    (hblanks : ∀ c ∈ blanks, isSpace c = true) (rest : List Char) :
    skip (blanks ++ (text ++ rest)) = text ++ rest := by
  obtain ⟨c, tail, rfl, hspace, -⟩ := h.starts
  exact skip_blanks hblanks hspace

variable {gap closing : List Char}

/-- What stands behind the first of some parts: each of the others with a comma before it. -/
def behind (gap : List Char) (parts : List (List Char)) : List Char := parts.flatMap (',' :: gap ++ ·)

theorem behind_cons (gap part : List Char) (parts : List (List Char)) (rest : List Char) :
    behind gap (part :: parts) ++ rest = ',' :: (gap ++ (part ++ (behind gap parts ++ rest))) := by
  simp [behind]

theorem intercalate_eq_append (gap part : List Char) (parts : List (List Char)) :
    (',' :: gap).intercalate (part :: parts) = part ++ behind gap parts := by
  induction parts generalizing part with
  | nil => simp [behind]
  | cons part' parts ih =>
    rw [List.intercalate_cons_cons, ih part', behind, behind, List.flatMap_cons]
    simp only [List.append_assoc]

theorem length_behind_cons (gap part : List Char) (parts : List (List Char)) :
    (behind gap (part :: parts)).length = 1 + gap.length + part.length + (behind gap parts).length := by
  have hlength := congrArg List.length (behind_cons gap part parts [])
  simp only [List.append_nil, List.length_cons, List.length_append] at hlength
  omega

/-- **Items with commas between them are read up to the end of their list.** -/
theorem readItems_shown {v : Value} {part : List Char} {items : List Value} {parts : List (List Char)}
    (hpart : Shown v part) (h : List.Forall₂ Shown items parts) (hgap : ∀ c ∈ gap, isSpace c = true)
    (hclosing : ∀ c ∈ closing, isSpace c = true) {fuel : Nat}
    (hfuel : part.length + (behind gap parts).length + 1 < fuel) (rest : List Char) :
    readItems fuel (part ++ (behind gap parts ++ (closing ++ ']' :: rest))) = some (v :: items, rest) := by
  induction h generalizing v part fuel with
  | nil =>
    obtain ⟨fuel, rfl⟩ := Nat.exists_eq_succ_of_ne_zero (Nat.ne_zero_of_lt hfuel)
    rw [behind, List.flatMap_nil, List.nil_append, readItems,
      hpart.reads (stops_blanks hclosing (stops_cons (by decide) _)) (by omega)]
    simp only [Option.bind_eq_bind, Option.bind_some, skip_blanks hclosing (show isSpace ']' = false by decide)]
    rfl
  | @cons v' part' items parts hpart' hparts ih =>
    obtain ⟨fuel, rfl⟩ := Nat.exists_eq_succ_of_ne_zero (Nat.ne_zero_of_lt hfuel)
    rw [length_behind_cons] at hfuel
    rw [behind_cons, readItems, hpart.reads (stops_cons (by decide) _) (by omega)]
    simp only [Option.bind_eq_bind, Option.bind_some, skip_cons (show isSpace ',' = false by decide)]
    rw [hpart'.skip_append hgap, ih hpart' (by omega)]
    rfl

/-- A text that is read back as an entry of a map. -/
inductive ShownEntry : Value × Value → List Char → Prop
  | entry (key : String) {v : Value} {value : List Char} (shown : Shown v value) :
      ShownEntry (.text key, v) ((textLiteral key).toList ++ ':' :: ' ' :: value)

theorem ShownEntry.starts {e : Value × Value} {text : List Char} (h : ShownEntry e text) :
    ∃ tail, text = '"' :: tail := by
  obtain ⟨key, -⟩ := h
  exact ⟨_, textLiteral_append ..⟩

/-- Blanks before an entry are passed over. -/
theorem ShownEntry.skip_append {e : Value × Value} {text blanks : List Char} (h : ShownEntry e text)
    (hblanks : ∀ c ∈ blanks, isSpace c = true) (rest : List Char) :
    skip (blanks ++ (text ++ rest)) = text ++ rest := by
  obtain ⟨tail, rfl⟩ := h.starts
  exact skip_blanks hblanks (by decide)

/-- An entry is read, and what stands behind it. -/
theorem ShownEntry.readEntries {e : Value × Value} {text rest : List Char} (h : ShownEntry e text)
    (hrest : Stops rest) {fuel : Nat} (hfuel : text.length < fuel) :
    readEntries (fuel + 1) (text ++ rest) = match skip rest with
      | '\x7d' :: rest => some ([e], rest)
      | ',' :: rest => do
        let (es, rest) ← readEntries fuel (skip rest)
        pure (e :: es, rest)
      | _ => none := by
  obtain @⟨key, v, value, shown⟩ := h
  have hcolon : skip (':' :: ' ' :: (value ++ rest)) = ':' :: ' ' :: (value ++ rest) := skip_cons (by decide) _
  have hblank : ∀ c ∈ [' '], isSpace c = true := List.forall_mem_singleton.2 rfl
  have hvalue : skip (' ' :: (value ++ rest)) = value ++ rest := shown.skip_append hblank rest
  have hlength : value.length < fuel := by
    rw [List.length_append, List.length_cons, List.length_cons] at hfuel
    omega
  rw [List.append_assoc, textLiteral_append, Json.readEntries]
  simp only [readText_literal, Option.bind_eq_bind, Option.bind_some, List.cons_append, hcolon, hvalue,
    shown.reads hrest hlength, String.ofList_toList]
  rfl

/-- **Entries with commas between them are read up to the end of their map.** -/
theorem readEntries_shown {e : Value × Value} {part : List Char} {es : Entries} {parts : List (List Char)}
    (hpart : ShownEntry e part) (h : List.Forall₂ ShownEntry es parts) (hgap : ∀ c ∈ gap, isSpace c = true)
    (hclosing : ∀ c ∈ closing, isSpace c = true) {fuel : Nat}
    (hfuel : part.length + (behind gap parts).length + 1 < fuel) (rest : List Char) :
    readEntries fuel (part ++ (behind gap parts ++ (closing ++ '\x7d' :: rest))) = some (e :: es, rest) := by
  induction h generalizing e part fuel with
  | nil =>
    obtain ⟨fuel, rfl⟩ := Nat.exists_eq_succ_of_ne_zero (Nat.ne_zero_of_lt hfuel)
    rw [behind, List.flatMap_nil, List.nil_append,
      hpart.readEntries (stops_blanks hclosing (stops_cons (by decide) _)) (by omega),
      skip_blanks hclosing (by decide)]
    rfl
  | @cons e' part' es parts hpart' hparts ih =>
    obtain ⟨fuel, rfl⟩ := Nat.exists_eq_succ_of_ne_zero (Nat.ne_zero_of_lt hfuel)
    rw [length_behind_cons] at hfuel
    rw [behind_cons, hpart.readEntries (stops_cons (by decide) _) (by omega), skip_cons (by decide)]
    simp only
    rw [hpart'.skip_append hgap, ih hpart' (by omega)]
    rfl

/-! ### Lists and maps -/

/-- A literal is shown that is read with whatever stops behind it. -/
theorem Shown.of_literal {v : Value} {text : List Char} (starts : ∃ c tail, text = c :: tail ∧ isSpace c = false ∧ c ≠ ']')
    (h : ∀ {rest} fuel, Stops rest → readValue (fuel + 1) (text ++ rest) = some (v, rest)) : Shown v text := by
  refine ⟨starts, fun {rest fuel} hrest hfuel => ?_⟩
  obtain ⟨fuel, rfl⟩ := Nat.exists_eq_succ_of_ne_zero (Nat.ne_zero_of_lt hfuel)
  exact h fuel hrest

theorem shown_null : Shown .null "null".toList :=
  .of_literal ⟨'n', _, rfl, by decide⟩ fun fuel _ => readValue_null fuel _

theorem shown_bool (b : Bool) : Shown (.bool b) (if b then "true" else "false").toList := by
  refine .of_literal ?_ fun fuel _ => readValue_bool b fuel _
  cases b with
  | false => exact ⟨'f', _, rfl, by decide⟩
  | true => exact ⟨'t', _, rfl, by decide⟩

theorem shown_int {n : Int} (hlength : (Nat.toDigits 10 n.natAbs).length ≤ Decimal.maxDigits) :
    Shown (.int n) (toString n).toList := by
  refine .of_literal ?_ fun fuel hrest => readValue_int hlength hrest fuel
  rw [toList_toString]
  split
  · exact ⟨'-', _, rfl, by decide⟩
  · obtain ⟨d, tail, hd⟩ := List.exists_cons_of_ne_nil (Nat.toDigits_ne_nil (n := n.natAbs) (b := 10))
    have hdigit : Text.isAsciiDigit d = true := (Decimal.digit_of_toDigits (hd ▸ List.mem_cons_self ..)).1
    refine ⟨d, tail, hd, ?_, ?_⟩
    · rw [Bool.eq_false_iff]
      intro hspace
      rcases isSpace_iff.1 hspace with rfl | rfl | rfl | rfl
      all_goals
        revert hdigit
        decide
    · rintro rfl
      revert hdigit
      decide

theorem shown_text (s : String) : Shown (.text s) (textLiteral s).toList := by
  have hstart := textLiteral_append s []
  rw [List.append_nil] at hstart
  exact .of_literal ⟨'"', _, hstart, by decide⟩ fun fuel _ => readValue_text s fuel _

theorem enclosed_nil (indent : Option Int) (depth : Nat) (opening closing : String) :
    (enclosed indent depth opening closing []).toList = opening.toList ++ closing.toList :=
  String.toList_append ..

/-- Between brackets stand the parts with commas, and blanks around them. -/
theorem exists_enclosed (indent : Option Int) (depth : Nat) (opening closing part : String) (parts : List String)
    {o c : Char} (ho : opening.toList = [o]) (hc : closing.toList = [c]) :
    ∃ first gap last, (∀ c ∈ first, isSpace c = true) ∧ (∀ c ∈ gap, isSpace c = true) ∧
      (∀ c ∈ last, isSpace c = true) ∧
      (enclosed indent depth opening closing (part :: parts)).toList =
        o :: (first ++ (part.toList ++ (behind gap (parts.map String.toList) ++ (last ++ [c])))) := by
  obtain ⟨gap, hgap, hblanks⟩ := exists_gap indent (depth + 1)
  refine ⟨(breakAt indent (depth + 1)).toList, gap, (breakAt indent depth).toList, isSpace_breakAt _ _, hblanks,
    isSpace_breakAt _ _, ?_⟩
  rw [enclosed, String.toList_append, String.toList_append, String.toList_append, String.toList_append,
    String.toList_intercalate, hgap, List.map_cons, intercalate_eq_append, ho, hc]
  · simp only [List.append_assoc, List.cons_append, List.nil_append]
  · nofun

theorem readValue_items (fuel : Nat) {rest tail : List Char} {c : Char} (hskip : skip rest = c :: tail) (hc : c ≠ ']') :
    readValue (fuel + 1) ('[' :: rest) = (readItems fuel (c :: tail)).map fun r => (.list r.1, r.2) := by
  rw [readValue, hskip]
  split
  · exact absurd (List.cons.inj ‹_›).1 hc
  · cases readItems fuel (c :: tail) <;> rfl

theorem readValue_entries (fuel : Nat) {rest tail : List Char} {c : Char} (hskip : skip rest = c :: tail)
    (hc : c ≠ '\x7d') : readValue (fuel + 1) ('\x7b' :: rest) =
      (readEntries fuel (c :: tail)).map fun r => (.map (Entries.putAll [] r.1), r.2) := by
  rw [readValue, hskip]
  split
  · exact absurd (List.cons.inj ‹_›).1 hc
  · cases readEntries fuel (c :: tail) <;> rfl

/-- **A list is shown where its items are.** -/
theorem shown_list {items : List Value} {parts : List String} (h : List.Forall₂ Shown items (parts.map String.toList))
    (indent : Option Int) (depth : Nat) : Shown (.list items) (enclosed indent depth "[" "]" parts).toList := by
  cases parts with
  | nil =>
    rw [List.map_nil] at h
    cases h
    rw [enclosed_nil]
    exact .of_literal ⟨'[', _, rfl, by decide⟩ fun fuel _ => rfl
  | cons part parts =>
    rw [List.map_cons] at h
    cases h with
    | @cons v _ items _ hpart hparts =>
      obtain ⟨first, gap, last, hfirst, hgap, hlast, htext⟩ :=
        exists_enclosed indent depth "[" "]" part parts (o := '[') (c := ']') rfl rfl
      obtain ⟨c, tail, hc, -, hother⟩ := hpart.starts
      rw [htext]
      refine ⟨⟨'[', _, rfl, by decide⟩, fun {rest fuel} hrest hfuel => ?_⟩
      obtain ⟨fuel, rfl⟩ := Nat.exists_eq_succ_of_ne_zero (Nat.ne_zero_of_lt hfuel)
      simp only [List.length_cons, List.length_append] at hfuel
      have hbound : part.toList.length + (behind gap (parts.map String.toList)).length + 1 < fuel := by omega
      have hread := readItems_shown hpart hparts hgap hlast hbound rest
      have hskip := hpart.skip_append hfirst
        (behind gap (parts.map String.toList) ++ (last ++ ']' :: rest))
      rw [hc, List.cons_append] at hread hskip
      simp only [List.cons_append, List.append_assoc, List.nil_append]
      rw [hc, List.cons_append, readValue_items fuel hskip hother, hread]
      rfl

/-- **A map is shown where its entries are**, and no two of its keys are one. -/
theorem shown_map {es : Entries} {parts : List String} (h : List.Forall₂ ShownEntry es (parts.map String.toList))
    (hes : Entries.Distinct es) (indent : Option Int) (depth : Nat) :
    Shown (.map es) (enclosed indent depth Value.braceOpen Value.braceClose parts).toList := by
  cases parts with
  | nil =>
    rw [List.map_nil] at h
    cases h
    rw [enclosed_nil]
    exact .of_literal ⟨'\x7b', _, rfl, by decide⟩ fun fuel _ => rfl
  | cons part parts =>
    rw [List.map_cons] at h
    cases h with
    | @cons e _ es _ hpart hparts =>
      obtain ⟨first, gap, last, hfirst, hgap, hlast, htext⟩ := exists_enclosed indent depth
        Value.braceOpen Value.braceClose part parts (o := '\x7b') (c := '\x7d') rfl rfl
      obtain ⟨tail, hc⟩ := hpart.starts
      rw [htext]
      refine ⟨⟨'\x7b', _, rfl, by decide⟩, fun {rest fuel} hrest hfuel => ?_⟩
      obtain ⟨fuel, rfl⟩ := Nat.exists_eq_succ_of_ne_zero (Nat.ne_zero_of_lt hfuel)
      simp only [List.length_cons, List.length_append] at hfuel
      have hbound : part.toList.length + (behind gap (parts.map String.toList)).length + 1 < fuel := by omega
      have hread := readEntries_shown hpart hparts hgap hlast hbound rest
      have hskip := hpart.skip_append hfirst
        (behind gap (parts.map String.toList) ++ (last ++ '\x7d' :: rest))
      rw [hc, List.cons_append] at hread hskip
      simp only [List.cons_append, List.append_assoc, List.nil_append]
      have hput := Entries.putAll_eq_append ((List.nil_append (e :: es)).symm ▸ hes)
      rw [hc, List.cons_append, readValue_entries fuel hskip (by decide), hread, Option.map_some, hput, List.nil_append]

/-! ### Values -/

/-- A value is written as a text that is read back as it. -/
def Kept (indent : Option Int) (depth : Nat) (v : Value) : Prop :=
  ∃ s, writeAt indent depth v = .ok s ∧ Shown v s.toList

variable {indent : Option Int} {depth : Nat}

theorem writeItems_kept {items : List Value} (h : ∀ v ∈ items, Kept indent depth v) :
    ∃ parts, writeItems indent depth items = .ok parts ∧ List.Forall₂ Shown items (parts.map String.toList) := by
  induction items with
  | nil => exact ⟨[], rfl, .nil⟩
  | cons v items ih =>
    rw [List.forall_mem_cons] at h
    obtain ⟨part, hwrite, hshown⟩ := h.1
    obtain ⟨parts, hrest, hall⟩ := ih h.2
    refine ⟨part :: parts, ?_, .cons hshown hall⟩
    rw [writeItems, hwrite, hrest]
    rfl

theorem writeEntries_kept {es : Entries} (texts : ∀ e ∈ es, ∃ s, e.1 = .text s)
    (h : ∀ e ∈ es, Kept indent depth e.2) :
    ∃ parts, writeEntries indent depth es = .ok parts ∧ List.Forall₂ ShownEntry es (parts.map String.toList) := by
  induction es with
  | nil => exact ⟨[], rfl, .nil⟩
  | cons e es ih =>
    obtain ⟨k, v⟩ := e
    rw [List.forall_mem_cons] at texts h
    obtain ⟨key, rfl⟩ := texts.1
    obtain ⟨part, hwrite, hshown⟩ := h.1
    obtain ⟨parts, hrest, hall⟩ := ih texts.2 h.2
    refine ⟨(textLiteral key ++ ": " ++ part) :: parts, ?_, .cons ?_ hall⟩
    · rw [writeEntries, hwrite, hrest]
      rfl
    · have htext : (textLiteral key ++ ": " ++ part).toList = (textLiteral key).toList ++ ':' :: ' ' :: part.toList := by
        rw [String.toList_append, String.toList_append, List.append_assoc]
        rfl
      rw [htext]
      exact .entry key hshown

/-- **Every value that JSON carries is written, and read back from wherever it stands.** -/
theorem Carried.kept {v : Value} (h : Carried v) (indent : Option Int) (depth : Nat) : Kept indent depth v := by
  induction h generalizing depth with
  | null => exact ⟨_, by rw [writeAt], shown_null⟩
  | bool b => exact ⟨_, by rw [writeAt], shown_bool b⟩
  | int digits => exact ⟨_, by rw [writeAt], shown_int digits⟩
  | text s => exact ⟨_, by rw [writeAt], shown_text s⟩
  | list _ ih =>
    obtain ⟨parts, hparts, hshown⟩ := writeItems_kept fun v hv => ih v hv (depth + 1)
    refine ⟨_, ?_, shown_list hshown indent depth⟩
    rw [writeAt, hparts]
    rfl
  | map texts _ distinct ih =>
    obtain ⟨parts, hparts, hshown⟩ := writeEntries_kept texts fun e he => ih e he (depth + 1)
    refine ⟨_, ?_, shown_map hshown distinct indent depth⟩
    rw [writeAt, hparts]
    rfl

theorem Shown.read? {v : Value} {s : String} (h : Shown v s.toList) : read? s = some v := by
  have hskip : skip s.toList = s.toList := by
    obtain ⟨c, tail, hc, hspace, -⟩ := h.starts
    rw [hc]
    exact skip_cons hspace tail
  have hstops : Stops [] := nofun
  have hread := h.reads hstops (Nat.lt_succ_self _)
  rw [List.append_nil] at hread
  rw [Json.read?]
  simp only [hskip, hread]
  rfl

/-- A list or a map is written between its brackets. -/
theorem ends_of_write {v : Value} {s : String} (h : writeAt indent depth v = .ok s) {o c : Char}
    (hv : (∃ items, v = .list items) ∧ o = '[' ∧ c = ']' ∨ (∃ es, v = .map es) ∧ o = '\x7b' ∧ c = '\x7d') :
    s.toList.head? = some o ∧ s.toList.getLast? = some c := by
  have hends {opening closing : String} (ho : opening.toList = [o]) (hc : closing.toList = [c]) (parts : List String) :
      (enclosed indent depth opening closing parts).toList.head? = some o ∧
        (enclosed indent depth opening closing parts).toList.getLast? = some c := by
    cases parts with
    | nil => simp [enclosed_nil, ho, hc]
    | cons part parts =>
      obtain ⟨first, gap, last, -, -, -, htext⟩ := exists_enclosed indent depth opening closing part parts ho hc
      rw [htext]
      refine ⟨rfl, ?_⟩
      simp only [← List.append_assoc, ← List.cons_append]
      exact List.getLast?_concat
  rcases hv with ⟨⟨items, rfl⟩, rfl, rfl⟩ | ⟨⟨es, rfl⟩, rfl, rfl⟩
  · rw [writeAt] at h
    cases hparts : writeItems indent (depth + 1) items with
    | error f =>
      rw [hparts] at h
      cases h
    | ok parts =>
      rw [hparts] at h
      obtain rfl := Except.ok.inj h
      exact hends rfl rfl parts
  · rw [writeAt] at h
    cases hparts : writeEntries indent (depth + 1) es with
    | error f =>
      rw [hparts] at h
      cases h
    | ok parts =>
      rw [hparts] at h
      obtain rfl := Except.ok.inj h
      exact hends rfl rfl parts

end Json
end PageComposer
