/-
# What a match becomes

The value of a match is what stands before a placeholder, the placeholder, and what stands behind it; a double quote
stands in the placeholder alone (`splice?_form`). If the name of the slot holds no `>`, a placeholder of that name
that begins earlier either ends before it or ends where it ends (`rest_of_overlap`), so that once all of them are
replaced no double quote is left but what is put in (`quote_not_mem_spliced`).
-/

import PageComposer.Proofs.Document.Grammar

namespace PageComposer
namespace AttributeSlots

/-- **A value that matches**, by the placeholder that decides: no double quote stands before it or behind it. -/
theorem splice?_form {cs : List Char} {s : Splice} (h : splice? cs = some s) :
    ∃ front placeholder after, s.value = front ++ placeholder ∧ '"' ∉ front ∧ '"' ∉ after ∧
      placeholder? placeholder = some ⟨s.name, s.ownText, after⟩ := by
  induction cs generalizing s with
  | nil => cases h
  | cons c cs ih =>
    have hvalue := splice?_eq h
    unfold splice? at h
    split at h
    · cases h
    · rename_i hc
      split at h
      · rename_i s' hs
        obtain rfl := Option.some.inj h
        obtain ⟨front, placeholder, after, hvalue, hfront, hafter, hp⟩ := ih hs
        refine ⟨c :: front, placeholder, after, by rw [hvalue]; rfl, ?_, hafter, hp⟩
        rw [List.mem_cons, not_or]
        exact ⟨fun he => hc (by simp [← he]), hfront⟩
      · simp only [spliceHere?, Option.bind_eq_bind, Option.bind_eq_some_iff] at h
        obtain ⟨p, hp, rest, hrest, h⟩ := h
        obtain ⟨after, hafter, htail⟩ := afterFirst?_eq_some.1 hrest
        obtain ⟨o, ho, quote, more, hquote, hne, hname, hmore, hown, hcs⟩ := placeholder?_eq_some.1 hp
        obtain rfl := Option.some.inj h
        have hform : c :: cs = (o ++ (p.name ++ quote :: (more ++ '>' :: (p.ownText ++ ("</yield>".toList ++ after))))) ++
            '"' :: rest := by
          rw [hcs, htail]
          simp
        exact ⟨[], _, after, List.append_cancel_right (hvalue.symm.trans hform), by simp, hafter,
          placeholder?_eq_some.2 ⟨o, ho, quote, more, hquote, hne, hname, hmore, hown, rfl⟩⟩

/-- Two beginnings up to the first character of a kind are the same. -/
theorem append_cons_inj {c : Char} {xs ys xs' ys' : List Char} (h : c ∉ xs) (h' : c ∉ xs')
    (he : xs ++ c :: ys = xs' ++ c :: ys') : xs = xs' ∧ ys = ys' := by
  have hall {zs : List Char} (hz : c ∉ zs) : ∀ x ∈ zs, (x != c) = true := fun x hx => bne_iff_ne.2 fun he => hz (he ▸ hx)
  have htake := congrArg (List.takeWhile (· != c)) he
  rw [Text.takeWhile_append_stop (hall h) (by simp), Text.takeWhile_append_stop (hall h') (by simp)] at htake
  subst htake
  simpa using he

/-- A placeholder that begins earlier, of the same name without `>`, ends before the placeholder or where it ends. -/
theorem rest_of_overlap {front placeholder : List Char} {p first : Written} (hp : AttributeSlots.placeholder? placeholder = some p)
    (hfirst : AttributeSlots.placeholder? (front ++ placeholder) = some first) (hname : first.name = p.name) (hangle : '>' ∉ p.name) :
    first.rest = p.rest ∨ ∃ front', front' <:+ front ∧ first.rest = front' ++ placeholder := by
  have hopens := opens_of_placeholder? hp
  obtain ⟨o, ho, quote, more, hquote, -, -, hmore, hown, rfl⟩ := placeholder?_eq_some.1 hp
  obtain ⟨o', ho', quote', more', hquote', -, -, hmore', hown', hcs⟩ := placeholder?_eq_some.1 hfirst
  have hnot {q : Char} (hq : isQuote q = true) : q ≠ '>' := by
    rintro rfl
    exact absurd hq (by decide)
  have hhead : '>' ∉ o ++ (p.name ++ quote :: more) := by
    simp [ho.not_mem, hangle, (hnot hquote).symm, hmore]
  have hhead' : '>' ∉ o' ++ (first.name ++ quote' :: more') := by
    simp [ho'.not_mem, hname, hangle, (hnot hquote').symm, hmore']
  have htext : o ++ (p.name ++ quote :: (more ++ '>' :: (p.ownText ++ ("</yield>".toList ++ p.rest)))) =
      (o ++ (p.name ++ quote :: more)) ++ '>' :: (p.ownText ++ ("</yield>".toList ++ p.rest)) := by simp
  have htext' : o' ++ (first.name ++ quote' :: (more' ++ '>' :: (first.ownText ++ ("</yield>".toList ++ first.rest)))) =
      (o' ++ (first.name ++ quote' :: more')) ++ '>' :: (first.ownText ++ ("</yield>".toList ++ first.rest)) := by simp
  rw [htext'] at hcs
  rcases List.append_eq_append_iff.1 hcs with ⟨t, ht, htail⟩ | ⟨t, ht, htail⟩
  · -- its tag ends with that of the placeholder
    rw [htext] at htail
    have hthead : '>' ∉ t := fun hmem => hhead' (ht ▸ List.mem_append_right front hmem)
    have hinner := (append_cons_inj hhead hthead htail).2
    have hend : "</yield>".toList = '<' :: "/yield>".toList := rfl
    rw [hend, List.cons_append, List.cons_append] at hinner
    exact .inl (List.append_cancel_left (append_cons_inj hown hown' hinner).2).symm
  · -- the placeholder does not open in what is left of it
    have hinside : '<' ∉ '>' :: first.ownText := by simpa using hown'
    have hfree : Free ('>' :: (first.ownText ++ "</yield>".toList)) first.rest :=
      (free_of_not_mem hinside _).append free_endTag
    have hwhole : ('>' :: (first.ownText ++ "</yield>".toList)) ++ first.rest = t ++ (o ++ (p.name ++ quote ::
        (more ++ '>' :: (p.ownText ++ ("</yield>".toList ++ p.rest))))) := by
      rw [← htail]
      simp
    rcases List.append_eq_append_iff.1 hwhole with ⟨u, rfl, hrest⟩ | ⟨u, hu, hd⟩
    · refine .inr ⟨u, ?_, hrest⟩
      rw [ht]
      exact (List.suffix_append _ u).trans (List.suffix_append _ _)
    · by_cases hne : u = []
      · subst hne
        exact .inr ⟨[], List.nil_suffix, by rw [hd]; rfl⟩
      · rw [hd] at hopens
        exact absurd hopens (hfree u ⟨t, hu.symm⟩ hne)

/-- A placeholder is not empty. -/
theorem length_rest_lt {cs : List Char} {p : Written} (h : placeholder? cs = some p) : p.rest.length < cs.length := by
  obtain ⟨o, -, quote, more, -, -, -, -, -, rfl⟩ := placeholder?_eq_some.1 h
  simp only [List.length_append, List.length_cons]
  omega

/-- Replacing leaves no double quote where none stood. -/
theorem quote_not_mem_replaceAll {name replacement : List Char} (hr : '"' ∉ replacement) {fuel : Nat} {cs : List Char}
    (h : '"' ∉ cs) : '"' ∉ replaceAll name replacement fuel cs := by
  induction fuel generalizing cs with
  | zero => exact h
  | succ fuel ih =>
    cases cs with
    | nil => exact h
    | cons c cs =>
      have hstay : '"' ∉ c :: replaceAll name replacement fuel cs := by
        rw [List.mem_cons, not_or] at h ⊢
        exact ⟨h.1, ih h.2⟩
      rw [replaceAll]
      split
      · rename_i p hp
        split
        · rw [List.mem_append, not_or]
          exact ⟨hr, ih fun hmem => h ((placeholder?_suffix hp).subset hmem)⟩
        · exact hstay
      · exact hstay

theorem quote_not_mem_replaceAll_append {replacement front placeholder : List Char} {p : Written} (hr : '"' ∉ replacement)
    (hp : AttributeSlots.placeholder? placeholder = some p) (hangle : '>' ∉ p.name) (hafter : '"' ∉ p.rest) {fuel : Nat}
    (hfuel : (front ++ placeholder).length < fuel) (hfront : '"' ∉ front) :
    '"' ∉ replaceAll p.name replacement fuel (front ++ placeholder) := by
  induction fuel generalizing front with
  | zero => omega
  | succ fuel ih =>
    cases front with
    | nil =>
      obtain ⟨c, cs, rfl⟩ : ∃ c cs, placeholder = c :: cs := by
        refine List.exists_cons_of_ne_nil ?_
        rintro rfl
        cases hp
      rw [List.nil_append, replaceAll, hp]
      simp only [beq_self_eq_true, if_true]
      rw [List.mem_append, not_or]
      exact ⟨hr, quote_not_mem_replaceAll hr hafter⟩
    | cons c front =>
      rw [List.cons_append, List.length_cons] at hfuel
      have hstay : '"' ∉ c :: replaceAll p.name replacement fuel (front ++ placeholder) := by
        rw [List.mem_cons, not_or] at hfront ⊢
        exact ⟨hfront.1, ih (by omega) hfront.2⟩
      rw [List.cons_append, replaceAll]
      split
      · rename_i first hfirst
        split
        · rename_i hname
          rw [List.mem_append, not_or]
          refine ⟨hr, ?_⟩
          have hwhole : AttributeSlots.placeholder? (c :: front ++ placeholder) = some first := hfirst
          rcases rest_of_overlap hp hwhole (beq_iff_eq.1 hname) hangle with hrest | ⟨front', hsuffix, hrest⟩
          · rw [hrest]
            exact quote_not_mem_replaceAll hr hafter
          · rw [hrest]
            have hshort := length_rest_lt hfirst
            rw [hrest, List.length_append] at hshort
            simp only [List.length_append, List.length_cons] at hshort hfuel
            refine ih (by rw [List.length_append]; omega) fun hmem => hfront (hsuffix.subset hmem)
        · exact hstay
      · exact hstay

/-- **A value has no double quote once its placeholders are replaced**, if what is put in has none and the name of the
slot holds no `>`. -/
theorem quote_not_mem_spliced {slots : SlotMap} {cs : List Char} {s : Splice} (h : splice? cs = some s) (hangle : '>' ∉ s.name)
    (hr : '"' ∉ replacementFor slots s) : '"' ∉ spliced slots s := by
  obtain ⟨front, placeholder, after, hvalue, hfront, hafter, hp⟩ := splice?_form h
  rw [spliced, hvalue]
  exact quote_not_mem_replaceAll_append hr hp hangle hafter (Nat.lt_succ_self _) hfront

end AttributeSlots
end PageComposer
