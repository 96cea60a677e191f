/-
# What stands between blanks

A text is what is left of it without blanks, with blanks before and behind (`Text.exists_around_trimOf`), and it is
found again wherever it stands between blanks (`Text.trimOf_around`).

What a reader takes of a class ends where the text goes on otherwise (`Text.takeWhile_append_stop`).

A text in small letters begins as its first letter does (`Text.lowered_cons`), and only an ASCII letter has a small
form that begins with `t` or `f` (`Text.lt_of_lowerChar`), as the words for truth values do.
-/

import Mathlib.Tactic.ByContra
import PageComposer.Text.Case

namespace PageComposer
namespace Text

variable {p : Char → Bool}

/-- **A text is what is left of it between what was taken off.** -/
theorem exists_around_trimOf (p : Char → Bool) (cs : List Char) :
    ∃ before after, cs = before ++ (trimOf p cs ++ after) ∧ (∀ c ∈ before, p c = true) ∧
      ∀ c ∈ after, p c = true := by
  refine ⟨cs.takeWhile p, ((cs.dropWhile p).reverse.takeWhile p).reverse, ?_,
    List.all_eq_true.1 List.all_takeWhile, fun c hc => ?_⟩
  · have htail : (cs.dropWhile p).reverse.takeWhile p ++ (cs.dropWhile p).reverse.dropWhile p =
        (cs.dropWhile p).reverse := List.takeWhile_append_dropWhile
    rw [trimOf, ← List.reverse_append, htail, List.reverse_reverse, List.takeWhile_append_dropWhile]
  · exact List.all_eq_true.1 List.all_takeWhile c (List.mem_reverse.1 hc)

theorem dropWhile_of_all {cs : List Char} (h : ∀ c ∈ cs, p c = true) (rest : List Char) :
    (cs ++ rest).dropWhile p = rest.dropWhile p := by
  induction cs with
  | nil => rfl
  | cons c cs ih =>
    rw [List.forall_mem_cons] at h
    rw [List.cons_append, List.dropWhile_cons_of_pos h.1, ih h.2]

theorem dropWhile_of_head {cs : List Char} (h : ∀ c ∈ cs.head?, p c = false) : cs.dropWhile p = cs := by
  cases cs with
  | nil => rfl
  | cons c cs => exact List.dropWhile_cons_of_neg (by rw [h c rfl]; exact Bool.false_ne_true)

/-- What a reader takes of a class, where the text goes on with another character or ends. -/
theorem takeWhile_append_stop {p : Char → Bool} {cs rest : List Char} (hcs : ∀ c ∈ cs, p c = true)
    (hrest : ∀ c ∈ rest.head?, p c = false) : (cs ++ rest).takeWhile p = cs := by
  rw [List.takeWhile_append_of_pos hcs]
  cases rest with
  | nil => simp
  | cons c rest => rw [List.takeWhile_cons_of_neg (by simpa using hrest c rfl), List.append_nil]

/-- **What begins and ends outside of a class is found between characters of it.** -/
theorem trimOf_around {before cs after : List Char} (hbefore : ∀ c ∈ before, p c = true)
    (hafter : ∀ c ∈ after, p c = true) (hhead : ∀ c ∈ cs.head?, p c = false)
    (hlast : ∀ c ∈ cs.getLast?, p c = false) : trimOf p (before ++ (cs ++ after)) = cs := by
  have hall : ∀ c ∈ after.reverse, p c = true := fun c hc => hafter c (List.mem_reverse.1 hc)
  rw [trimOf, dropWhile_of_all hbefore]
  cases cs with
  | nil =>
    rw [List.nil_append, ← List.append_nil after, dropWhile_of_all hafter]
    rfl
  | cons c rest =>
    have hfront : ((c :: rest) ++ after).dropWhile p = (c :: rest) ++ after := dropWhile_of_head hhead
    rw [hfront, List.reverse_append, dropWhile_of_all hall,
      dropWhile_of_head (by rw [List.head?_reverse]; exact hlast), List.reverse_reverse]

/-! ### How a text in small letters begins -/

theorem lowerChar_ne_nil (c : Char) : lowerChar c ≠ [] := by
  unfold lowerChar
  dsimp only
  split
  · split <;> exact List.cons_ne_nil _ _
  · split
    · exact List.cons_ne_nil _ _
    · split <;> exact List.cons_ne_nil _ _

/-- What is true of the characters of ASCII by their codes is true of every one of them. -/
theorem of_ascii {P : Char → Prop} (h : ∀ n < 128, P (Char.ofNat n)) {c : Char} (hc : c.toNat < 128) : P c := by
  have := h c.toNat hc
  rwa [Char.ofNat_toNat] at this

/-- A text in small letters begins as its first letter does. -/
theorem lowered_cons {c : Char} (hc : c ≠ capitalSigma) (rest : List Char) :
    ∃ tail, lowered (c :: rest) = lowerChar c ++ tail := by
  unfold lowered
  split
  · rw [lowerWithSigma, if_neg (by rwa [beq_iff_eq])]
    exact ⟨_, rfl⟩
  · exact ⟨_, rfl⟩

/-- No letter beyond ASCII has the small form `t` or `f`. -/
theorem lowerRuns_apart :
    ∀ r ∈ lowerRuns, ∀ m ∈ [102, 116], (m : Int) < r.first + r.shift ∨ r.last + r.shift < m := by
  decide +kernel

/-- What a run of letters makes of one of them. -/
theorem CaseRun.of_lower? {r : CaseRun} {n m : Nat} (h : r.lower? n = some m) :
    r.first ≤ n ∧ n ≤ r.last ∧ m = Int.toNat (n + r.shift) := by
  unfold lower? at h
  split at h
  · rename_i hrun
    simp only [Bool.and_eq_true, decide_eq_true_eq] at hrun
    exact ⟨hrun.1.1, hrun.1.2, (Option.some.inj h).symm⟩
  · cases h

/-- Only an ASCII letter begins with `t` or `f` in its small form. -/
theorem lt_of_lowerChar {c d : Char} {rest : List Char} (h : lowerChar c = d :: rest) (hd : d = 't' ∨ d = 'f') :
    c.toNat < 128 := by
  by_contra hc
  have hnumber : d.toNat = 116 ∨ d.toNat = 102 := hd.imp (congrArg Char.toNat) (congrArg Char.toNat)
  unfold lowerChar at h
  dsimp only at h
  rw [if_neg hc] at h
  split at h
  · obtain ⟨rfl, -⟩ := List.cons.inj h
    revert hd
    decide
  · split at h
    · rename_i m hm
      obtain ⟨rfl, -⟩ := List.cons.inj h
      obtain ⟨r, hr, hm⟩ := List.exists_of_findSome?_eq_some hm
      obtain ⟨hfirst, hlast, rfl⟩ := CaseRun.of_lower? hm
      have htoNat : (Char.ofNat (Int.toNat (c.toNat + r.shift))).toNat = 0 ∨
          (Char.ofNat (Int.toNat (c.toNat + r.shift))).toNat = Int.toNat (c.toNat + r.shift) := by
        unfold Char.ofNat
        by_cases hvalid : (Int.toNat (c.toNat + r.shift)).isValidChar
        · rw [dif_pos hvalid]
          exact .inr rfl
        · rw [dif_neg hvalid]
          exact .inl rfl
      have h102 := lowerRuns_apart r hr 102 (by decide)
      have h116 := lowerRuns_apart r hr 116 (by decide)
      omega
    · obtain ⟨rfl, -⟩ := List.cons.inj h
      omega

/-- Only the letters themselves and their capitals have a small form that begins with `t` or `f`. -/
theorem mem_of_lowerChar {c d : Char} {rest : List Char} (h : lowerChar c = d :: rest) (hd : d = 't' ∨ d = 'f') :
    c ∈ ['t', 'T', 'f', 'F'] := by
  have hascii : ∀ n < 128, (lowerChar (Char.ofNat n)).head? = some 't' ∨ (lowerChar (Char.ofNat n)).head? = some 'f' →
      Char.ofNat n ∈ ['t', 'T', 'f', 'F'] := by
    decide +kernel
  have hc := hascii c.toNat (lt_of_lowerChar h hd)
  rw [Char.ofNat_toNat, h] at hc
  exact hc (hd.imp (congrArg some) (congrArg some))

end Text
end PageComposer
