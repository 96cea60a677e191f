/-
# Values that match

Before a fragment is parsed, the attribute values that match are replaced in its source. Where they stand is told
by the parts of the source (`AttributeSlots.parts`): its characters, and a hole for each match. Written with the
values themselves the parts are the source (`writeAll_parts`), and written with what the matches become they are
the rewritten source (`rewrite_eq`).

A match ends at its closing quote (`splice?_eq`), and none begins in the name of an attribute (`parts_name`), so
it makes no difference whether names are taken at once or by one character after the other.
-/

import PageComposer.Document.AttributeSlots
import PageComposer.Proofs.Markup.Lexing
import PageComposer.Proofs.Markup.Parts
import PageComposer.Proofs.Markup.Tails

namespace PageComposer
namespace AttributeSlots

/-! ### Readers -/

theorem after?_eq_some {word cs rest : List Char} : after? word cs = some rest ↔ cs = word ++ rest := by
  induction word generalizing cs with
  | nil => simp [after?, eq_comm]
  | cons w word ih =>
    cases cs with
    | nil => simp [after?]
    | cons c cs =>
      unfold after?
      by_cases hc : w = c
      · simp [hc, ih]
      · simp [hc, Ne.symm hc]

@[simp] theorem after?_append (word rest : List Char) : after? word (word ++ rest) = some rest :=
  after?_eq_some.2 rfl

theorem afterFirst?_append {c : Char} {cs : List Char} (h : c ∉ cs) (rest : List Char) :
    afterFirst? c (cs ++ c :: rest) = some rest := by
  induction cs with
  | nil => simp [afterFirst?]
  | cons x cs ih =>
    rw [List.mem_cons, not_or] at h
    rw [List.cons_append, afterFirst?, if_neg (by simpa using Ne.symm h.1), ih h.2]

theorem afterFirst?_eq_some {c : Char} {cs rest : List Char} :
    afterFirst? c cs = some rest ↔ ∃ front, c ∉ front ∧ cs = front ++ c :: rest := by
  constructor
  · intro h
    induction cs with
    | nil => cases h
    | cons x cs ih =>
      unfold afterFirst? at h
      split at h
      · rename_i hx
        obtain rfl := Option.some.inj h
        exact ⟨[], by simp, by rw [beq_iff_eq.1 hx]; rfl⟩
      · rename_i hx
        obtain ⟨front, hfront, rfl⟩ := ih h
        refine ⟨x :: front, ?_, rfl⟩
        rw [List.mem_cons, not_or]
        exact ⟨fun he => hx (by simp [he]), hfront⟩
  · rintro ⟨front, hfront, rfl⟩
    exact afterFirst?_append hfront rest

/-! ### Matches -/

theorem isQuote_iff {c : Char} : isQuote c = true ↔ c = '"' ∨ c = '\'' := by
  simp [isQuote]

/-- The opening of a placeholder: `<yield`, blanks, `name=` and a quote. -/
inductive Opening : List Char → Prop
  | mk {blanks : List Char} {quote : Char} (some : blanks ≠ []) (blank : ∀ c ∈ blanks, Text.isBlank c = true)
      (isQuote : isQuote quote = true) :
      Opening ("<yield".toList ++ (blanks ++ ("name=".toList ++ [quote])))

/-- An opening holds no `>`. -/
theorem Opening.not_mem {o : List Char} (h : Opening o) : '>' ∉ o := by
  obtain ⟨_, hblank, hquote⟩ := h
  simp only [List.mem_append, List.mem_singleton, not_or]
  refine ⟨by decide, fun hc => absurd (hblank _ hc) (by decide), by decide, ?_⟩
  rintro rfl
  exact absurd hquote (by decide)

/-- **A placeholder is an opening, the name, its closing quote, the rest of the tag, the own text and the end tag.** -/
theorem placeholder?_eq_some {cs : List Char} {p : Written} :
    placeholder? cs = some p ↔ ∃ o, Opening o ∧ ∃ quote more, isQuote quote = true ∧ p.name ≠ [] ∧
      (∀ c ∈ p.name, isQuote c = false) ∧ '>' ∉ more ∧ '<' ∉ p.ownText ∧
      cs = o ++ (p.name ++ quote :: (more ++ '>' :: (p.ownText ++ ("</yield>".toList ++ p.rest)))) := by
  constructor
  · intro h
    simp only [placeholder?, Option.bind_eq_bind, Option.bind_eq_some_iff] at h
    obtain ⟨afterTag, hyield, h⟩ := h
    split at h
    · cases h
    · rename_i hblanks
      obtain ⟨quoted, hquoted, h⟩ := Option.bind_eq_some_iff.1 h
      split at h
      · cases h
      · rename_i q named
        split at h
        · cases h
        · rename_i hq
          simp only [Bool.or_eq_true, not_or, Bool.not_eq_true, Bool.not_eq_false', List.isEmpty_eq_false_iff] at hq
          obtain ⟨inner, hinner, h⟩ := Option.bind_eq_some_iff.1 h
          obtain ⟨rest, hrest, h⟩ := Option.bind_eq_some_iff.1 h
          obtain rfl := Option.some.inj h
          obtain ⟨more, hmore, hclose⟩ := afterFirst?_eq_some.1 hinner
          rw [after?_eq_some] at hyield hquoted hrest
          rw [Markup.drop_length_takeWhile] at hclose hrest
          -- the closing quote is the first one behind the name
          obtain ⟨quote, tail, htail⟩ : ∃ quote tail, named.dropWhile (fun c => !isQuote c) = quote :: tail := by
            refine List.exists_cons_of_ne_nil fun hnil => ?_
            rw [hnil] at hclose
            simp at hclose
          have hquote := List.head?_dropWhile_not (fun c => !isQuote c) named
          rw [htail] at hquote hclose
          obtain rfl : tail = more ++ '>' :: inner := hclose
          have hnamed := List.takeWhile_append_dropWhile (p := fun c => !isQuote c) (l := named)
          have hinner := List.takeWhile_append_dropWhile (p := (· != '<')) (l := inner)
          have hblank := List.takeWhile_append_dropWhile (p := Text.isBlank) (l := afterTag)
          have hsome : afterTag.takeWhile Text.isBlank ≠ [] := by
            intro hnil
            rw [hnil, List.nil_append] at hblank
            exact hblanks (by rw [hblank]; exact beq_self_eq_true _)
          refine ⟨_, .mk hsome (fun c hc => List.mem_takeWhile_imp hc) hq.1, quote, more, by simpa using hquote,
            hq.2, fun c hc => by simpa using List.mem_takeWhile_imp hc, hmore,
            fun hc => by simpa using List.mem_takeWhile_imp hc, ?_⟩
          dsimp only
          rw [← hrest, hinner, ← htail, hnamed, hyield, List.append_assoc, List.append_assoc, List.append_assoc,
            List.singleton_append, ← hquoted, hblank]
  · rintro ⟨_, ⟨hsome, hblank, hq⟩, quote, more, hquote, hne, hname, hmore, hown, rfl⟩
    rename_i blanks q
    have isEmpty_name : p.name.isEmpty = false := by simpa using hne
    have hdrop : (blanks ++ ("name=".toList ++ q :: (p.name ++ quote :: (more ++ '>' ::
        (p.ownText ++ ("</yield>".toList ++ p.rest)))))).dropWhile Text.isBlank =
        "name=".toList ++ q :: (p.name ++ quote :: (more ++ '>' :: (p.ownText ++ ("</yield>".toList ++ p.rest)))) := by
      rw [List.dropWhile_append_of_pos hblank]
      exact List.dropWhile_cons_of_neg (by decide)
    have htake : (p.name ++ quote :: (more ++ '>' :: (p.ownText ++ ("</yield>".toList ++ p.rest)))).takeWhile
        (fun c => !isQuote c) = p.name :=
      Text.takeWhile_append_stop (fun c hc => by rw [hname c hc]; rfl) (by simp [hquote])
    have htext : (p.ownText ++ ("</yield>".toList ++ p.rest)).takeWhile (· != '<') = p.ownText := by
      refine Text.takeWhile_append_stop (fun c hc => ?_) (by simp)
      exact bne_iff_ne.2 fun he => hown (he ▸ hc)
    have hpos := List.length_pos_iff.2 hsome
    simp only [placeholder?, List.append_assoc, List.singleton_append, after?_append, Option.bind_eq_bind,
      Option.bind_some, hdrop]
    rw [if_neg (by simp only [List.length_append, beq_iff_eq]; omega)]
    simp only [htake, hq, isEmpty_name, List.drop_left, List.drop_one, List.tail_cons, afterFirst?_append hmore,
      Option.bind_some, htext, after?_append]
    rfl

theorem placeholder?_suffix {cs : List Char} {p : Written} (h : placeholder? cs = some p) : p.rest <:+ cs := by
  obtain ⟨o, -, quote, more, -, -, -, -, -, rfl⟩ := placeholder?_eq_some.1 h
  exact ⟨o ++ (p.name ++ quote :: (more ++ '>' :: (p.ownText ++ "</yield>".toList))), by simp⟩

/-- The value of a match ends at its closing quote. -/
theorem splice?_eq {cs : List Char} {s : Splice} (h : splice? cs = some s) : cs = s.value ++ '"' :: s.rest := by
  induction cs generalizing s with
  | nil => cases h
  | cons c cs ih =>
    unfold splice? at h
    split at h
    · cases h
    · split at h
      · rename_i s' hs
        obtain rfl := Option.some.inj h
        rw [List.cons_append, ← ih hs]
      · simp only [spliceHere?, Option.bind_eq_bind, Option.bind_eq_some_iff] at h
        obtain ⟨p, hp, rest, hrest, h⟩ := h
        obtain rfl := Option.some.inj h
        obtain ⟨front, -, hfront⟩ := afterFirst?_eq_some.1 hrest
        have hquote : '"' :: rest <:+ p.rest := ⟨front, hfront.symm⟩
        obtain ⟨value, hvalue⟩ := hquote.trans (placeholder?_suffix hp)
        have hlength : (c :: cs).length - rest.length - 1 = value.length := by
          rw [← hvalue, List.length_append, List.length_cons]
          omega
        rw [hlength, ← hvalue, List.take_left]

/-- The match whose value begins behind an equals sign and a quote, where the name of an attribute ends
before them. -/
def spliceAt? (named : Bool) (cs : List Char) : Option Splice :=
  if named then (after? "=\"".toList cs).bind splice? else none

theorem spliceAt?_eq {named : Bool} {cs : List Char} {s : Splice} (h : spliceAt? named cs = some s) :
    cs = '=' :: '"' :: (s.value ++ '"' :: s.rest) := by
  unfold spliceAt? at h
  split at h
  · obtain ⟨value, hvalue, hs⟩ := Option.bind_eq_some_iff.1 h
    rw [after?_eq_some.1 hvalue, splice?_eq hs]
    rfl
  · cases h

/-- A text as its characters and the values that match; `named` tells whether the name of an attribute
ends before it. -/
def parts (named : Bool) (cs : List Char) : List (Part Splice) :=
  match cs with
  | [] => []
  | c :: cs =>
    match _h : spliceAt? named (c :: cs) with
    | some s => .value s :: parts false s.rest
    | none => .char c :: parts (isNameChar c) cs
termination_by cs.length
decreasing_by
  · have hlength := congrArg List.length (spliceAt?_eq _h)
    simp only [List.length_cons, List.length_append] at hlength ⊢
    omega
  · simp

@[simp] theorem parts_nil (named : Bool) : parts named [] = [] := by
  rw [parts]

theorem parts_some {named : Bool} {cs : List Char} {s : Splice} (h : spliceAt? named cs = some s) :
    parts named cs = .value s :: parts false s.rest := by
  cases cs with
  | nil => cases spliceAt?_eq h
  | cons c cs =>
    rw [parts]
    split <;> simp_all

theorem parts_none {named : Bool} {c : Char} {cs : List Char} (h : spliceAt? named (c :: cs) = none) :
    parts named (c :: cs) = .char c :: parts (isNameChar c) cs := by
  rw [parts]
  split <;> simp_all

/-- **The parts make the text**, each match with its value. -/
theorem writeAll_parts (named : Bool) (cs : List Char) : Part.writeAll Splice.value (parts named cs) = cs := by
  fun_induction parts named cs with
  | case1 => rfl
  | case2 named c cs s h ih => rw [Part.writeAll_value, ih, spliceAt?_eq h]
  | case3 named c cs h ih => rw [Part.writeAll_char, ih]

/-- No match begins where no attribute name ends. -/
theorem spliceAt?_unnamed (cs : List Char) : spliceAt? false cs = none := rfl

theorem parts_unnamed {named : Bool} {cs : List Char} (h : spliceAt? named cs = none) :
    parts named cs = parts false cs := by
  cases cs with
  | nil => simp
  | cons c cs => rw [parts_none h, parts_none (spliceAt?_unnamed _)]

theorem isNameChar_equals : isNameChar '=' = false := by decide

/-- No match begins in the name of an attribute. -/
theorem parts_name {name : List Char} (hne : name ≠ []) (hname : ∀ c ∈ name, isNameChar c = true) (named : Bool)
    (rest : List Char) : parts named (name ++ rest) = name.map .char ++ parts true rest := by
  induction name generalizing named with
  | nil => exact absurd rfl hne
  | cons c name ih =>
    rw [List.forall_mem_cons] at hname
    have hnone : spliceAt? named (c :: (name ++ rest)) = none := by
      refine Option.eq_none_iff_forall_ne_some.2 fun s hs => ?_
      obtain rfl := (List.cons.inj (spliceAt?_eq hs)).1
      rw [isNameChar_equals] at hname
      cases hname.1
    rw [List.cons_append, parts_none hnone, hname.1, List.map_cons, List.cons_append]
    by_cases hmore : name = []
    · subst hmore
      rfl
    · rw [ih hmore hname.2]

/-- What a match becomes. -/
def spliced (slots : SlotMap) (s : Splice) : List Char :=
  replaceAll s.name (replacementFor slots s) (s.value.length + 1) s.value

/-- **Rewriting replaces the values that match.** -/
theorem rewriteFrom_eq (slots : SlotMap) {fuel : Nat} {cs : List Char} (h : cs.length < fuel) :
    rewriteFrom slots fuel cs = Part.writeAll (spliced slots) (parts false cs) := by
  induction fuel generalizing cs with
  | zero => omega
  | succ fuel ih =>
    cases cs with
    | nil => simp [rewriteFrom]
    | cons c cs =>
      rw [rewriteFrom]
      generalize hname : (c :: cs).takeWhile isNameChar = name
      have hsplit : name ++ (c :: cs).drop name.length = c :: cs := by
        rw [← hname]
        exact List.prefix_iff_eq_append.1 (List.takeWhile_prefix _)
      generalize (c :: cs).drop name.length = afterName at hsplit
      have hlength := congrArg List.length hsplit
      simp only [List.length_append, List.length_cons] at hlength h
      by_cases hne : name = []
      · have hc : isNameChar c = false := by
          rw [hne, List.takeWhile_cons] at hname
          split at hname
          · cases hname
          · rename_i hc
            simpa using hc
        rw [if_pos (List.isEmpty_iff.2 hne), parts_none (spliceAt?_unnamed _), hc, Part.writeAll_char, ih (by omega)]
      · have hchars : ∀ d ∈ name, isNameChar d = true := by
          rw [← hname]
          exact fun d hd => List.mem_takeWhile_imp hd
        have hpos := List.length_pos_iff.2 hne
        have hnone (hn : spliceAt? true afterName = none) : name ++ rewriteFrom slots fuel afterName =
            Part.writeAll (spliced slots) (name.map .char ++ parts true afterName) := by
          rw [parts_unnamed hn, Part.writeAll_append, Part.writeAll_chars, ih (by omega)]
        rw [if_neg (by simpa using hne), ← hsplit, parts_name hne hchars]
        simp only [spliceAt?, if_true] at hnone
        cases hv : after? "=\"".toList afterName with
        | none =>
          simp only [hv]
          exact hnone (by rw [hv]; rfl)
        | some value =>
          cases hs : splice? value with
          | none =>
            simp only [hv, hs]
            exact hnone (by rw [hv]; exact hs)
          | some s =>
            have hat : spliceAt? true afterName = some s := by
              rw [spliceAt?, if_pos rfl, hv]
              exact hs
            have hrest := congrArg List.length (spliceAt?_eq hat)
            simp only [List.length_cons, List.length_append] at hrest
            simp only [hv, hs]
            rw [parts_some hat, Part.writeAll_append, Part.writeAll_chars, Part.writeAll_value, ih (by omega)]
            rfl

/-- Rewriting a text. -/
theorem rewrite_eq (slots : SlotMap) (source : String) :
    (rewrite slots source).toList = Part.writeAll (spliced slots) (parts false source.toList) := by
  rw [rewrite, String.toList_ofList, rewriteFrom_eq slots (by rw [String.length_toList]; omega)]

end AttributeSlots
end PageComposer
