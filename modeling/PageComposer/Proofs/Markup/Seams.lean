/-
# Seams in attribute values

A value may be put together from pieces. Where no piece ends with what begins a reference (`Closed`), no reference
runs over a seam, and what is read of the whole is what is read of the pieces (`decodeValue_append`).

| a piece ends with | what follows could belong to it |
| --- | --- |
| `&#` and digits | more digits |
| `&#x` and hexadecimal digits | more of these |
| `&` and what a known name begins with | the rest of the name |

A name that is not known is looked up by its beginnings, so what follows a closed piece is never part of a name that
is found (`namedInValue_append`). A text leaf that is read from character data is closed, since each of its ampersands
has its semicolon (`closed_escaped`); one that ends with `>` is closed, since no name has that character
(`closed_of_angle`).
-/

import Mathlib.Data.List.Basic
import PageComposer.Proofs.Markup.Lexing
import PageComposer.Proofs.Markup.Literals
import PageComposer.Proofs.Markup.Numerals

namespace PageComposer
namespace Markup

/-! ### Reading a value -/

theorem valueReference?_suffix {cs t rest : List Char} (h : valueReference? cs = .ok (some (t, rest))) : rest <:+ cs := by
  have hgives := gives_valueReference? cs
  rw [h] at hgives
  exact hgives _ rfl

/-- A value does not depend on how much fuel is left. -/
theorem decodeValueFrom_fuel {fuel fuel' : Nat} {cs : List Char} (h : cs.length ≤ fuel) (h' : cs.length ≤ fuel') :
    decodeValueFrom fuel cs = decodeValueFrom fuel' cs := by
  induction fuel generalizing fuel' cs with
  | zero =>
    obtain rfl := List.length_eq_zero_iff.1 (Nat.le_zero.1 h)
    cases fuel' <;> rfl
  | succ fuel ih =>
    cases cs with
    | nil => cases fuel' <;> rfl
    | cons c cs =>
      rw [List.length_cons] at h h'
      obtain ⟨fuel', rfl⟩ : ∃ k, fuel' = k + 1 := ⟨fuel' - 1, by omega⟩
      by_cases hc : c = '&'
      · subst hc
        rw [decodeValueFrom, decodeValueFrom]
        cases hr : valueReference? cs with
        | error f => rfl
        | ok r =>
          cases r with
          | none =>
            simp only [bind, Except.bind]
            rw [ih (by omega : cs.length ≤ fuel) (by omega : cs.length ≤ fuel')]
          | some r =>
            have hle := (valueReference?_suffix hr).length_le
            simp only [bind, Except.bind]
            rw [ih (by omega : r.2.length ≤ fuel) (by omega : r.2.length ≤ fuel')]
      · rw [decodeValueFrom, decodeValueFrom, ih (by omega : cs.length ≤ fuel) (by omega : cs.length ≤ fuel')]
        all_goals exact hc

@[simp] theorem decodeValue_nil : decodeValue [] = .ok [] := rfl

theorem decodeValue_cons {c : Char} (hc : c ≠ '&') (cs : List Char) :
    decodeValue (c :: cs) = (decodeValue cs).map (c :: ·) := by
  rw [decodeValue, List.length_cons, decodeValueFrom.eq_4 _ _ _ hc]
  show (decodeValue cs >>= fun v => pure (c :: v)) = _
  cases decodeValue cs <;> rfl

/-- Text without references stands for itself. -/
theorem decodeValue_plain {plain : List Char} (h : '&' ∉ plain) (cs : List Char) :
    decodeValue (plain ++ cs) = (decodeValue cs).map (plain ++ ·) := by
  induction plain with
  | nil => cases h : decodeValue cs <;> simp [h, Except.map]
  | cons c plain ih =>
    rw [List.mem_cons, not_or] at h
    rw [List.cons_append, decodeValue_cons (Ne.symm h.1), ih h.2]
    cases decodeValue cs <;> rfl

theorem decodeValue_none {cs : List Char} (h : valueReference? cs = .ok none) :
    decodeValue ('&' :: cs) = (decodeValue cs).map ('&' :: ·) := by
  rw [decodeValue, List.length_cons, decodeValueFrom, h]
  show (decodeValue cs >>= fun v => pure ('&' :: v)) = _
  cases decodeValue cs <;> rfl

theorem decodeValue_some {cs t rest : List Char} (h : valueReference? cs = .ok (some (t, rest))) :
    decodeValue ('&' :: cs) = (decodeValue rest).map (t ++ ·) := by
  rw [decodeValue, List.length_cons, decodeValueFrom, h]
  show (decodeValueFrom cs.length rest >>= fun v => pure (t ++ v)) = _
  rw [decodeValueFrom_fuel (valueReference?_suffix h).length_le (Nat.le_refl _)]
  show (decodeValue rest >>= fun v => pure (t ++ v)) = _
  cases decodeValue rest <;> rfl

/-- **A text leaf of character data** is read as the characters that it was made from, whatever follows. -/
theorem decodeValue_escaped (cs rest : List Char) :
    decodeValue (escaped cs ++ rest) = (decodeValue rest).map (cs ++ ·) := by
  induction cs with
  | nil => cases h : decodeValue rest <;> simp [escaped, h, Except.map]
  | cons c cs ih =>
    have hchar (X : List Char) : decodeValue (escapedChar c ++ X) = (decodeValue X).map (c :: ·) := by
      unfold escapedChar
      split
      · exact decodeValue_some (valueReference?_amp X)
      · exact decodeValue_some (valueReference?_lt X)
      · exact decodeValue_some (valueReference?_gt X)
      · rename_i hamp _ _
        exact decodeValue_cons hamp X
    rw [escaped, List.flatMap_cons, List.append_assoc, hchar, ← escaped, ih]
    cases decodeValue rest <;> rfl

/-! ### Names across a seam -/

/-- No known name begins with `u`. -/
def Unknown (u : List Char) : Prop := ∀ name e, entity? name = some e → ¬u <+: name.toList

theorem Unknown.entity? {u : List Char} (h : Unknown u) (m : List Char) : entity? (String.ofList (u ++ m)) = none := by
  refine Option.eq_none_iff_forall_ne_some.2 fun e he => h _ e he ?_
  rw [String.toList_ofList]
  exact List.prefix_append u m

/-- A name of which no beginning is known that ends behind the seam is looked up before the seam. -/
theorem oldNameIn?_append {u : List Char} (h : Unknown u) (m : List Char) {n : Nat} (hn : u.length ≤ n + 1) :
    oldNameIn? (u ++ m) n = (oldNameIn? u (u.length - 1)).map fun r => (r.1, r.2 ++ m) := by
  induction n with
  | zero =>
    have hlast : u.length - 1 = 0 := by omega
    rw [hlast]
    rfl
  | succ n ih =>
    by_cases hlong : u.length ≤ n + 1
    · cases n with
      | zero => exact ih hlong
      | succ n =>
        have htake : (u ++ m).take (n + 2) = u ++ m.take (n + 2 - u.length) := by
          rw [List.take_append, List.take_of_length_le (by omega)]
        rw [oldNameIn?, htake, h.entity?]
        exact ih hlong
    · -- from here on the beginnings end before the seam
      have hlast : u.length - 1 = n + 1 := by omega
      have hbegin : ∀ k, k ≤ n + 1 → oldNameIn? (u ++ m) k = (oldNameIn? u k).map fun r => (r.1, r.2 ++ m) := by
        intro k hk
        induction k with
        | zero => rfl
        | succ k ihk =>
          cases k with
          | zero => rfl
          | succ k =>
            have hle : k + 2 ≤ u.length := by omega
            have hmore := ihk (by omega)
            rw [oldNameIn?, oldNameIn?, List.take_append_of_le_length hle, List.drop_append_of_le_length hle, hmore]
            split
            · split <;> rfl
            · rfl
      rw [hlast]
      exact hbegin _ (Nat.le_refl _)

/-- **An unknown name leaves what follows the seam as it is.** -/
theorem namedInValue_append {u : List Char} (h : Unknown u) (m : List Char) (semicolon : Bool) :
    namedInValue (u ++ m) semicolon = namedInValue u false ++ (m ++ if semicolon then [';'] else []) := by
  have hu := h.entity? []
  rw [List.append_nil] at hu
  have hn : u.length ≤ (u ++ m).length - 1 + 1 := by
    rw [List.length_append]
    omega
  unfold namedInValue
  simp only [h.entity? m, hu, oldNameIn?_append h m hn]
  cases oldNameIn? u (u.length - 1) <;> simp

/-! ### Names without angles -/

theorem mem_of_mem_pieces {separator c : Char} {cs p : List Char} (hp : p ∈ Text.pieces separator cs) (hc : c ∈ p) :
    c ∈ cs := by
  induction cs generalizing p with
  | nil =>
    obtain rfl : p = [] := List.mem_singleton.1 hp
    cases hc
  | cons d cs ih =>
    unfold Text.pieces at hp
    split at hp
    · rcases List.mem_cons.1 hp with rfl | hp
      · cases hc
      · exact List.mem_cons_of_mem _ (ih hp hc)
    · split at hp
      · obtain rfl : p = [d] := List.mem_singleton.1 hp
        rw [List.mem_singleton.1 hc]
        exact List.mem_cons_self ..
      · rename_i piece more hpieces
        rw [hpieces] at ih
        rcases List.mem_cons.1 hp with rfl | hp
        · rcases List.mem_cons.1 hc with rfl | hc
          · exact List.mem_cons_self ..
          · exact List.mem_cons_of_mem _ (ih (List.mem_cons_self ..) hc)
        · exact List.mem_cons_of_mem _ (ih (List.mem_cons_of_mem _ hp) hc)

/-- A name is part of its entry in the table. -/
theorem mem_entry_of_mem_name {entry : List Char} {c : Char} (hc : c ∈ (readEntity entry).1.toList) : c ∈ entry := by
  unfold readEntity at hc
  split at hc
  · rename_i name points hpieces
    have hname : name ∈ Text.pieces ':' entry := hpieces ▸ List.mem_cons_self ..
    dsimp only at hc
    split at hc
    · rw [String.toList_ofList] at hc
      exact mem_of_mem_pieces hname ((List.dropLast_sublist name).subset hc)
    · rw [String.toList_ofList] at hc
      exact mem_of_mem_pieces hname hc
  · rwa [String.toList_ofList] at hc

theorem cons_eq_map {cs : List Char} {ss : List String} {lines : List (List Char)} (h : ss = lines.map String.ofList) :
    String.ofList cs :: ss = (cs :: lines).map String.ofList := by
  rw [h, List.map_cons]

/-- The lines of the table, as characters. -/
theorem exists_lines : ∃ lines : List (List Char), entityTable = lines.map String.ofList ∧
    lines.all (fun cs => !cs.elem '>') = true := by
  unfold entityTable
  apply Exists.intro
  constructor
  -- a literal is the text of its characters, which are found line by line
  repeat apply cons_eq_map
  exact List.map_nil.symm
  decide +kernel

/-- No known name has an angle. -/
theorem angle_not_mem_name {name : String} {e : Entity} (h : entity? name = some e) : '>' ∉ name.toList := by
  have htable : ∀ line ∈ entityTable, '>' ∉ line.toList := by
    obtain ⟨lines, htable, hall⟩ := exists_lines
    rw [htable, List.forall_mem_map]
    intro cs hcs
    simpa using List.all_eq_true.1 hall cs hcs
  have hlookup {es : List (String × Entity)} (hl : es.lookup name = some e) : (name, e) ∈ es := by
    obtain ⟨before, after, rfl, -⟩ := List.lookup_eq_some_iff.1 hl
    simp
  unfold entity? at h
  split at h
  · rename_i e' hbasic
    have hmem := hlookup (h ▸ hbasic)
    revert hmem
    simp only [basicEntities, List.mem_cons, Prod.mk.injEq, List.not_mem_nil, or_false]
    rintro (⟨rfl, -⟩ | ⟨rfl, -⟩ | ⟨rfl, -⟩ | ⟨rfl, -⟩) <;> decide
  · intro hangle
    obtain ⟨line, hline, hentries⟩ := List.mem_flatMap.1 (hlookup h)
    obtain ⟨entry, hentry, hname⟩ := List.mem_map.1 hentries
    rw [show name = (readEntity entry).1 by rw [hname]] at hangle
    exact htable line hline (mem_of_mem_pieces hentry (mem_entry_of_mem_name hangle))

/-! ### Closed pieces -/

/-- What follows an ampersand may be the beginning of a reference. -/
inductive OpensReference : List Char → Prop
  | decimal {ds : List Char} (h : ∀ d ∈ ds, Text.isAsciiDigit d = true) : OpensReference ('#' :: ds)
  | hexadecimal {x : Char} {hs : List Char} (hx : x = 'x' ∨ x = 'X') (h : ∀ d ∈ hs, Text.isHexDigit d = true) :
      OpensReference ('#' :: x :: hs)
  | named {u : List Char} {name : String} {e : Entity} (chars : ∀ c ∈ u, isValueNameChar c = true)
      (known : entity? name = some e) (h : u <+: name.toList) : OpensReference u

/-- A piece of a value that ends with no beginning of a reference. -/
def Closed (piece : List Char) : Prop := ∀ u, '&' :: u <:+ piece → ¬OpensReference u

theorem Closed.suffix {piece piece' : List Char} (h : Closed piece) (hs : piece' <:+ piece) : Closed piece' :=
  fun u hu => h u (hu.trans hs)

/-- What a reference begins with may end earlier. -/
theorem OpensReference.of_append {u v : List Char} (h : OpensReference (u ++ v)) (hu : u ≠ []) :
    OpensReference u := by
  obtain ⟨c, u, rfl⟩ := List.exists_cons_of_ne_nil hu
  generalize hw : c :: u ++ v = w at h
  cases h with
  | decimal h =>
    obtain ⟨rfl, rfl⟩ := List.cons.inj hw
    exact .decimal fun d hd => h d (List.mem_append_left v hd)
  | @hexadecimal x hs hx h =>
    obtain ⟨rfl, hrest⟩ : c = '#' ∧ u ++ v = x :: hs := List.cons.inj hw
    cases u with
    | nil => exact .decimal (by simp)
    | cons y u =>
      obtain ⟨rfl, rfl⟩ : y = x ∧ u ++ v = hs := List.cons.inj hrest
      exact .hexadecimal hx fun d hd => h d (List.mem_append_left v hd)
  | named chars known h =>
    subst hw
    exact .named (fun d hd => chars d (List.mem_append_left v hd)) known ((List.prefix_append _ v).trans h)

/-- An ampersand alone opens a reference. -/
theorem opensReference_nil : OpensReference [] := by
  have hamp : entity? "amp" = some ⟨['&'], true⟩ := rfl
  exact .named (by simp) hamp (List.nil_prefix)

theorem Closed.append {p q : List Char} (hp : Closed p) (hq : Closed q) : Closed (p ++ q) := by
  intro u hu hopen
  rcases List.suffix_or_suffix_of_suffix hu (List.suffix_append p q) with hs | ⟨t, ht⟩
  · exact hq u hs hopen
  · cases t with
    | nil => exact hq u ⟨[], by simpa using ht.symm⟩ hopen
    | cons c t =>
      obtain ⟨rfl, rfl⟩ : c = '&' ∧ t ++ q = u := List.cons.inj ht
      have hpiece : '&' :: t <:+ p := List.suffix_append_self_iff.1 hu
      by_cases hne : t = []
      · subst hne
        exact hp [] hpiece opensReference_nil
      · exact hp t hpiece (hopen.of_append hne)

/-- A text without an ampersand is closed. -/
theorem closed_of_not_mem {piece : List Char} (h : '&' ∉ piece) : Closed piece :=
  fun _ hu => absurd (hu.subset (List.mem_cons_self ..)) h

/-- What goes beyond a semicolon is no beginning of a reference. -/
theorem closed_reference {ref : List Char} (hend : ';' ∈ ref) (hsign : ref.head? ≠ some '#') (hamp : '&' ∉ ref) :
    Closed ('&' :: ref) := by
  intro u hu hopen
  rcases List.suffix_cons_iff.1 hu with he | hu
  · obtain rfl : u = ref := (List.cons.inj he).2
    cases hopen with
    | decimal => exact hsign rfl
    | hexadecimal => exact hsign rfl
    | named chars => exact absurd (chars ';' hend) (by decide)
  · exact hamp (hu.subset (List.mem_cons_self ..))

/-- **A text leaf of character data is closed.** -/
theorem closed_escaped (cs : List Char) : Closed (escaped cs) := by
  induction cs with
  | nil => exact closed_of_not_mem (by simp [escaped])
  | cons c cs ih =>
    refine Closed.append ?_ ih
    unfold escapedChar
    split
    · exact closed_reference (by decide) (by decide) (by decide)
    · exact closed_reference (by decide) (by decide) (by decide)
    · exact closed_reference (by decide) (by decide) (by decide)
    · rename_i hamp _ _
      exact closed_of_not_mem (by simpa using Ne.symm hamp)

/-- **A piece that ends with an angle is closed.** -/
theorem closed_of_angle {piece : List Char} (h : piece.getLast? = some '>') : Closed piece := by
  intro u hu hopen
  have hangle : '>' ∈ u := by
    obtain ⟨t, rfl⟩ := hu
    rw [List.getLast?_append_cons] at h
    rcases List.mem_cons.1 (List.mem_of_getLast? h) with he | hmem
    · exact absurd he (by decide)
    · exact hmem
  cases hopen with
  | decimal h => exact absurd (h '>' (by simpa using hangle)) (by decide)
  | hexadecimal hx h =>
    have hne : '>' ≠ '#' ∧ '>' ≠ 'x' ∧ '>' ≠ 'X' := by decide
    rcases hx with rfl | rfl <;> exact absurd (h '>' (by simpa [hne] using hangle)) (by decide)
  | named _ known h => exact angle_not_mem_name known (h.subset hangle)

/-! ### References across a seam -/

theorem takeSemicolon_append {p : List Char} (hp : p ≠ []) (X : List Char) :
    takeSemicolon (p ++ X) = ((takeSemicolon p).1, (takeSemicolon p).2 ++ X) := by
  obtain ⟨c, p, rfl⟩ := List.exists_cons_of_ne_nil hp
  by_cases hc : c = ';'
  · subst hc
    rfl
  · have hother (cs : List Char) : takeSemicolon (c :: cs) = (false, c :: cs) := by
      rw [takeSemicolon]
      simp [hc]
    rw [List.cons_append, hother, hother]
    rfl

/-- What is left behind characters of a kind that end before the seam. -/
theorem drop_takeWhile_append {f : Char → Bool} {cs : List Char} {c : Char} (hc : c ∈ cs) (hf : f c = false)
    (X : List Char) : (cs ++ X).takeWhile f = cs.takeWhile f ∧
      takeSemicolon ((cs ++ X).drop (cs.takeWhile f).length) =
        ((takeSemicolon (cs.drop (cs.takeWhile f).length)).1, (takeSemicolon (cs.drop (cs.takeWhile f).length)).2 ++ X) := by
  have htake := takeWhile_append_of_mem hc hf X
  obtain ⟨hdrop, hmem⟩ := dropWhile_append_of_mem hc hf X
  refine ⟨htake, ?_⟩
  have hleft := drop_length_takeWhile f (cs ++ X)
  rw [htake, hdrop] at hleft
  rw [hleft, drop_length_takeWhile, takeSemicolon_append (List.ne_nil_of_mem hmem)]

/-- A reference by number that ends before the seam is read as it is. -/
theorem valueReference?_number {cs : List Char} (h : ¬OpensReference ('#' :: cs)) (X : List Char) :
    valueReference? ('#' :: cs ++ X) = (valueReference? ('#' :: cs)).map (Option.map fun r => (r.1, r.2 ++ X)) := by
  obtain ⟨d, hd, hdigit⟩ : ∃ d ∈ cs, Text.isAsciiDigit d = false := by
    by_contra hall
    refine h (.decimal fun d hd => ?_)
    by_contra hdigit
    exact hall ⟨d, hd, by simpa using hdigit⟩
  obtain ⟨htake, hleft⟩ := drop_takeWhile_append hd hdigit X
  unfold valueReference?
  simp only [List.cons_append, htake, hleft]
  split
  · cases Decimal.boundedOfDigits ((cs.takeWhile Text.isAsciiDigit).filterMap Text.digitValue?) <;> rfl
  · obtain ⟨x, cs, rfl⟩ := List.exists_cons_of_ne_nil (List.ne_nil_of_mem hd)
    by_cases hx : x = 'x' ∨ x = 'X'
    · obtain ⟨d, hd, hhex⟩ : ∃ d ∈ cs, Text.isHexDigit d = false := by
        by_contra hall
        refine h (.hexadecimal hx fun d hd => ?_)
        by_contra hhex
        exact hall ⟨d, hd, by simpa using hhex⟩
      obtain ⟨htake, hleft⟩ := drop_takeWhile_append hd hhex X
      simp only [List.cons_append, htake, hleft]
      split <;> rfl
    · have hnone : (x == 'x' || x == 'X') = false := by simpa using hx
      simp only [List.cons_append, hnone]
      rfl

/-- A reference by name, as it is read. -/
theorem valueReference?_other {cs : List Char} (hcs : cs.head? ≠ some '#') : valueReference? cs =
    if ((cs.takeWhile isValueNameChar).take 32).isEmpty then .ok none
    else .ok (some (namedInValue ((cs.takeWhile isValueNameChar).take 32)
      (takeSemicolon (cs.drop ((cs.takeWhile isValueNameChar).take 32).length)).1,
      (takeSemicolon (cs.drop ((cs.takeWhile isValueNameChar).take 32).length)).2)) := by
  unfold valueReference?
  split
  · simp at hcs
  · rfl

/-- A name that ends before the seam is read as it is. -/
theorem valueReference?_name {u : List Char} (hsign : u.head? ≠ some '#')
    (hends : (∃ c ∈ u, isValueNameChar c = false) ∨ 32 < u.length) (X : List Char) :
    valueReference? (u ++ X) = (valueReference? u).map (Option.map fun r => (r.1, r.2 ++ X)) := by
  -- the name is the same, and something is left behind it
  obtain ⟨hname, hshort⟩ : ((u ++ X).takeWhile isValueNameChar).take 32 = (u.takeWhile isValueNameChar).take 32 ∧
      ((u.takeWhile isValueNameChar).take 32).length < u.length := by
    by_cases hstop : ∃ c ∈ u, isValueNameChar c = false
    · obtain ⟨c, hc, hchar⟩ := hstop
      have hlength : (u.takeWhile isValueNameChar).length < u.length := by
        have hdrop := drop_length_takeWhile isValueNameChar u
        have hmem := (dropWhile_append_of_mem hc hchar X).2
        rw [← hdrop] at hmem
        by_contra hle
        rw [List.drop_eq_nil_of_le (by omega)] at hmem
        cases hmem
      refine ⟨by rw [takeWhile_append_of_mem hc hchar], ?_⟩
      rw [List.length_take]
      omega
    · have hlong := hends.resolve_left hstop
      have hall : ∀ c ∈ u, isValueNameChar c = true := by
        intro c hc
        by_contra hchar
        exact hstop ⟨c, hc, by simpa using hchar⟩
      rw [List.takeWhile_append_of_pos hall, List.takeWhile_eq_self_iff.2 hall, List.take_append_of_le_length (by omega)]
      refine ⟨rfl, ?_⟩
      rw [List.length_take]
      omega
  have hne : u ≠ [] := by
    rintro rfl
    simp at hshort
  have hleft : u.drop ((u.takeWhile isValueNameChar).take 32).length ≠ [] := by
    rw [Ne, List.drop_eq_nil_iff]
    omega
  obtain ⟨c, u', rfl⟩ := List.exists_cons_of_ne_nil hne
  have hsign' : (c :: u' ++ X).head? ≠ some '#' := hsign
  rw [valueReference?_other hsign, valueReference?_other hsign', hname, List.drop_append_of_le_length (by omega),
    takeSemicolon_append hleft]
  split <;> rfl

/-- The semicolon that is taken, if there is one, and what is left are what was there. -/
theorem takeSemicolon_eq (cs : List Char) :
    cs = (if (takeSemicolon cs).1 then [';'] else []) ++ (takeSemicolon cs).2 := by
  unfold takeSemicolon
  split <;> rfl

/-- A name that may go on behind the seam, if it is not known, leaves what follows to be read as it is. -/
theorem decodeValue_unknown {u : List Char} (hne : u ≠ []) (hchars : ∀ c ∈ u, isValueNameChar c = true)
    (hshort : u.length ≤ 32) (h : Unknown u) (X : List Char) :
    decodeValue ('&' :: u ++ X) = (decodeValue X).map (namedInValue u false ++ ·) := by
  obtain ⟨c, u', rfl⟩ := List.exists_cons_of_ne_nil hne
  obtain ⟨m, hm⟩ : ∃ m, m = (X.takeWhile isValueNameChar).take (32 - (c :: u').length) := ⟨_, rfl⟩
  obtain ⟨X', hX⟩ : m <+: X := hm ▸ (List.take_prefix _ _).trans (List.takeWhile_prefix _)
  have hname : ((c :: u' ++ X).takeWhile isValueNameChar).take 32 = c :: u' ++ m := by
    rw [List.takeWhile_append_of_pos hchars, List.take_append, List.take_of_length_le hshort, hm]
  have hsign : (c :: u' ++ X).head? ≠ some '#' := by
    have hc := hchars c (List.mem_cons_self ..)
    rintro hsign
    obtain rfl : c = '#' := Option.some.inj hsign
    exact absurd hc (by decide)
  have hdrop : (c :: u' ++ X).drop (c :: u' ++ m).length = X' := by
    rw [← hX, ← List.append_assoc, List.drop_left]
  have hread : valueReference? (c :: u' ++ X) =
      .ok (some (namedInValue (c :: u' ++ m) (takeSemicolon X').1, (takeSemicolon X').2)) := by
    rw [valueReference?_other hsign, hname, hdrop]
    rfl
  -- what is taken with the name stands for itself
  have hplain : '&' ∉ m ++ if (takeSemicolon X').1 then [';'] else [] := by
    have hamp : '&' ∉ m := by
      intro hmem
      rw [hm] at hmem
      exact absurd (List.mem_takeWhile_imp ((List.take_sublist _ _).subset hmem)) (by decide)
    rw [List.mem_append, not_or]
    refine ⟨hamp, ?_⟩
    split <;> simp
  have hrest : X = (m ++ if (takeSemicolon X').1 then [';'] else []) ++ (takeSemicolon X').2 := by
    rw [List.append_assoc, ← takeSemicolon_eq, hX]
  rw [List.cons_append, decodeValue_some hread, namedInValue_append h,
    (congrArg decodeValue hrest).trans (decodeValue_plain hplain _)]
  cases decodeValue (takeSemicolon X').2 <;> simp [Except.map]

/-- **What is read of a value is read of its pieces**, if the first is closed. -/
theorem decodeValue_append {piece : List Char} (h : Closed piece) (X : List Char) :
    decodeValue (piece ++ X) = decodeValue piece >>= fun v => (decodeValue X).map (v ++ ·) := by
  have hmap {t : List Char} (r : Except Decimal.NumeralFault (List Char)) :
      (r >>= fun v => (decodeValue X).map (v ++ ·)).map (t ++ ·) =
        r.map (t ++ ·) >>= fun v => (decodeValue X).map (v ++ ·) := by
    cases r with
    | error f => rfl
    | ok v => cases hX : decodeValue X <;> simp [Except.map, bind, Except.bind]
  induction hn : piece.length using Nat.strongRecOn generalizing piece with
  | _ n ih =>
    subst hn
    rcases piece with _ | ⟨c, u⟩
    · cases hX : decodeValue X <;> simp [hX, Except.map, bind, Except.bind]
    · have hu := ih u.length (by simp) (h.suffix (List.suffix_cons ..)) rfl
      by_cases hc : c = '&'
      · subst hc
        have hopen := h u List.suffix_rfl
        by_cases hends : (∃ c ∈ u, isValueNameChar c = false) ∨ 32 < u.length
        · have hsame : valueReference? (u ++ X) = (valueReference? u).map (Option.map fun r => (r.1, r.2 ++ X)) := by
            by_cases hsign : u.head? = some '#'
            · obtain ⟨cs, rfl⟩ := List.head?_eq_some_iff.1 hsign
              exact valueReference?_number hopen X
            · exact valueReference?_name hsign hends X
          rw [List.cons_append]
          cases hr : valueReference? u with
          | error f =>
            rw [hr] at hsame
            rw [decodeValue, decodeValue, List.length_cons, List.length_cons, decodeValueFrom, decodeValueFrom, hr, hsame]
            rfl
          | ok r =>
            rw [hr] at hsame
            cases r with
            | none =>
              rw [decodeValue_none hr, decodeValue_none hsame, hu]
              exact hmap (t := ['&']) _
            | some r =>
              have hrest := valueReference?_suffix hr
              have hle := hrest.length_le
              have hmore := ih r.2.length (by simp only [List.length_cons]; omega)
                (h.suffix (hrest.trans (List.suffix_cons ..))) rfl
              rw [decodeValue_some hr, decodeValue_some hsame, hmore, hmap]
        · -- the name may go on behind the seam
          have hchars : ∀ c ∈ u, isValueNameChar c = true := by
            intro c hcu
            by_contra hchar
            exact hends (.inl ⟨c, hcu, by simpa using hchar⟩)
          have hname : u ≠ [] := by
            rintro rfl
            exact hopen opensReference_nil
          have hunknown : Unknown u := fun name e known hprefix => hopen (.named hchars known hprefix)
          have hshort : u.length ≤ 32 := by omega
          have halone := decodeValue_unknown hname hchars hshort hunknown []
          rw [List.append_nil] at halone
          rw [decodeValue_unknown hname hchars hshort hunknown, halone]
          simp [Except.map, bind, Except.bind]
      · rw [List.cons_append, decodeValue_cons hc, decodeValue_cons hc, hu]
        exact hmap (t := [c]) _

end Markup
end PageComposer
