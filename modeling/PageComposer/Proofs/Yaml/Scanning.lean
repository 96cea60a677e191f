/-
# What ends the reading of tokens

Nearly all that ends it are faults of the notation (`Fault.isSyntactic`).  Two are not, and each stands in the text
(`Blames`):

| fault | in the text |
| --- | --- |
| `codePoint` | an escape of eight digits with a character code beyond the last one |
| `numeral` | the digits of a version, more than 4300 |

Each reader begins with an end of the text and leaves an end of that, so what it is at fault for stands in the text.
-/

import PageComposer.Proofs.Markup.Numerals
import PageComposer.Yaml.Token

namespace PageComposer
namespace Yaml

open Markup (Gives LongNumeral)
open scoped Decimal

/-! ### Places -/

namespace Cursor

variable (c : Cursor)

theorem next_suffix : c.next.rest <:+ c.rest := by
  unfold next
  split
  · exact List.suffix_rfl
  · rename_i hrest
    rw [hrest]
    split
    · split <;> exact List.suffix_cons ..
    · split
      · exact List.suffix_cons ..
      · split <;> exact List.suffix_cons ..

theorem rest_of_here {ch : Char} (h : c.here = ch) (hend : ch ≠ endMark) : c.rest = ch :: c.next.rest := by
  unfold here peek at h
  unfold next
  cases hrest : c.rest with
  | nil =>
    rw [hrest] at h
    exact absurd h.symm hend
  | cons d rest =>
    rw [hrest] at h
    obtain rfl : d = ch := h
    dsimp only
    split
    · split <;> rfl
    · split
      · rfl
      · split <;> rfl

theorem skip_suffix (n : Nat) : (c.skip n).rest <:+ c.rest := by
  induction n generalizing c with
  | zero => exact List.suffix_rfl
  | succ n ih => exact (ih c.next).trans c.next_suffix

theorem takeWhile_suffix (p : Char → Bool) : (c.takeWhile p).2.rest <:+ c.rest := c.skip_suffix _

theorem dropWhile_suffix (p : Char → Bool) : (c.dropWhile p).rest <:+ c.rest := c.skip_suffix _

/-- What is read to `r` leaves what the second part of `r` leaves. -/
theorem suffix_of_eq {α : Type} {r : α × Cursor} {a : α} {c' : Cursor} (hs : r.2.rest <:+ c.rest) (hr : r = (a, c')) :
    c'.rest <:+ c.rest := by
  subst hr
  exact hs

theorem readBreak_suffix : c.readBreak.2.rest <:+ c.rest := by
  unfold readBreak
  split
  · exact c.skip_suffix 2
  · split
    · exact c.next_suffix
    · split
      · exact c.next_suffix
      · exact List.suffix_rfl
  · exact List.suffix_rfl

theorem skipComment_suffix : c.skipComment.rest <:+ c.rest := by
  unfold skipComment
  split
  · exact c.dropWhile_suffix _
  · exact List.suffix_rfl

end Cursor

/-! ### What is blamed -/

/-- An escape of eight digits in `cs` writes the character code `n`, which is beyond the last one. -/
def EscapedCode (cs : List Char) (n : Nat) : Prop :=
  ∃ ds, '\\' :: 'U' :: ds <:+: cs ∧ ds.length = 8 ∧ (∀ d ∈ ds, Text.isHexDigit d = true) ∧
    Decimal.ofDigits 16 (ds.filterMap Text.hexValue?) = n ∧ 0x110000 ≤ n

/-- What ends the reading of the tokens of `cs`. -/
inductive Blames (cs : List Char) : Fault → Prop
  | syntactic {f : Fault} (unlike : f.isSyntactic = true) : Blames cs f
  | code {n : Nat} (escape : EscapedCode cs n) : Blames cs (.codePoint n)
  | version {f : Decimal.NumeralFault} (digits : LongNumeral cs f) : Blames cs (.numeral f)

theorem blames_token (cs : List Char) : Blames cs .token := .syntactic rfl

theorem Blames.mono {cs cs' : List Char} {f : Fault} (h : Blames cs f) (hs : cs <:+: cs') : Blames cs' f := by
  cases h with
  | syntactic h => exact .syntactic h
  | code h =>
    obtain ⟨ds, hds, hcode⟩ := h
    exact .code ⟨ds, hds.trans hs, hcode⟩
  | version h => exact .version (h.mono hs)

/-- A reader at `c` fails for what stands there, or leaves an end of it. -/
def Reads {α : Type} (c : Cursor) : Except Fault (α × Cursor) → Prop :=
  Gives (Blames c.rest) fun r => r.2.rest <:+ c.rest

section
variable {α β : Type} {c c' : Cursor}

theorem reads_token : Reads c (.error .token : Except Fault (α × Cursor)) := blames_token _

theorem reads_throw {next : β → Except Fault (α × Cursor)} : Reads c ((throw .token : Except Fault β) >>= next) :=
  blames_token _

theorem Reads.mono {r : Except Fault (α × Cursor)} (h : Reads c' r) (hs : c'.rest <:+ c.rest) : Reads c r :=
  Gives.mono h (fun _ hf => hf.mono hs.isInfix) fun _ hr => hr.trans hs

theorem Reads.bind {r : Except Fault (α × Cursor)} {next : α × Cursor → Except Fault (β × Cursor)} (h : Reads c r)
    (hnext : ∀ a c', c'.rest <:+ c.rest → Reads c (next (a, c'))) : Reads c (r >>= next) :=
  Gives.bind h fun a ha => hnext a.1 a.2 ha

theorem Reads.fault {r : Except Fault (α × Cursor)} {f : Fault} (h : Reads c r) (hr : r = .error f) :
    Blames c.rest f := by
  rw [hr] at h
  exact h

theorem Reads.rest {r : Except Fault (α × Cursor)} {a : α} (h : Reads c r) (hr : r = .ok (a, c')) :
    c'.rest <:+ c.rest := by
  rw [hr] at h
  exact h

end

/-! ### Quoted scalars -/

theorem reads_quotedBreaks (fuel : Nat) (c : Cursor) : Reads c (quotedBreaks fuel c) := by
  induction fuel generalizing c with
  | zero => exact List.suffix_rfl
  | succ fuel ih =>
    unfold quotedBreaks
    split
    · exact reads_token
    · extract_lets gap
      have hgap : gap.rest <:+ c.rest := c.dropWhile_suffix _
      split
      · have hbreak : gap.readBreak.2.rest <:+ c.rest := gap.readBreak_suffix.trans hgap
        have hmore := (ih gap.readBreak.2).mono hbreak
        dsimp only
        split
        · rename_i f hf
          exact hmore.fault hf
        · rename_i more c' hok
          exact hmore.rest hok
      · exact hgap

theorem reads_quotedSpaces (c : Cursor) : Reads c (quotedSpaces c) := by
  unfold quotedSpaces
  split
  rename_i spaces gap hgap
  have hgap : gap.rest <:+ c.rest := c.suffix_of_eq (c.takeWhile_suffix _) hgap
  split
  · exact reads_token
  · split
    · have hbreak : gap.readBreak.2.rest <:+ c.rest := gap.readBreak_suffix.trans hgap
      have hmore := (reads_quotedBreaks (gap.readBreak.2.rest.length + 1) gap.readBreak.2).mono hbreak
      dsimp only
      split
      · rename_i f hf
        exact hmore.fault hf
      · rename_i more c' hok
        exact hmore.rest hok
    · exact hgap

theorem hexValue?_lt {c : Char} {v : Nat} (h : Text.hexValue? c = some v) : v < 16 := by
  simp only [Text.hexValue?, Text.isAsciiDigit, Bool.and_eq_true, decide_eq_true_eq, Char.le_def,
    UInt32.le_iff_toNat_le] at h
  have h9 : '9'.val.toNat = 57 := rfl
  have hf : 'f'.val.toNat = 102 := rfl
  have hF : 'F'.val.toNat = 70 := rfl
  have hc : c.toNat = c.val.toNat := rfl
  split at h
  · obtain rfl := Option.some.inj h
    omega
  · split at h
    · obtain rfl := Option.some.inj h
      omega
    · split at h
      · obtain rfl := Option.some.inj h
        omega
      · cases h

/-- The digits of a number in base sixteen bound it. -/
theorem foldl_hex_lt (ds : List Char) (n : Nat) :
    (ds.map Text.hexValue?).foldl (fun n d => 16 * n + d.getD 0) n < (n + 1) * 16 ^ ds.length := by
  induction ds generalizing n with
  | nil => simp
  | cons d ds ih =>
    have hd : (Text.hexValue? d).getD 0 < 16 := by
      cases hv : Text.hexValue? d with
      | none => decide
      | some v => exact hexValue?_lt hv
    calc _ < (16 * n + (Text.hexValue? d).getD 0 + 1) * 16 ^ ds.length := ih _
      _ ≤ ((n + 1) * 16) * 16 ^ ds.length := Nat.mul_le_mul_right _ (by omega)
      _ = (n + 1) * 16 ^ (ds.length + 1) := by rw [Nat.pow_succ, Nat.mul_assoc, Nat.mul_comm 16]

theorem foldl_hex (ds : List Char) (hds : ∀ d ∈ ds, Text.isHexDigit d = true) (n : Nat) :
    (ds.map Text.hexValue?).foldl (fun n d => 16 * n + d.getD 0) n =
      (ds.filterMap Text.hexValue?).foldl (fun n d => 16 * n + d) n := by
  induction ds generalizing n with
  | nil => rfl
  | cons d ds ih =>
    rw [List.forall_mem_cons] at hds
    obtain ⟨v, hv⟩ := Option.isSome_iff_exists.1 hds.1
    rw [List.map_cons, List.foldl_cons, ih hds.2, List.filterMap_cons, hv]
    rfl

/-- Of the escapes by number only those of eight digits go beyond the last character. -/
theorem escapedCode_of_digits {c : Cursor} {width : Nat} (hwidth : escapeWidths.lookup c.here = some width)
    (hlength : (c.next.rest.take width).length = width)
    (hdigits : ∀ d ∈ c.next.rest.take width, Text.isHexDigit d = true) {n : Nat}
    (hn : ((c.next.rest.take width).map Text.hexValue?).foldl (fun n d => 16 * n + d.getD 0) 0 = n)
    (hcode : 0x110000 ≤ n) : EscapedCode ('\\' :: c.rest) n := by
  have hbound := foldl_hex_lt (c.next.rest.take width) 0
  rw [hn, hlength] at hbound
  have hU : c.here = 'U' ∧ width = 8 := by
    simp only [escapeWidths, List.lookup_cons, List.lookup_nil] at hwidth
    split at hwidth
    · obtain rfl := Option.some.inj hwidth
      omega
    · split at hwidth
      · obtain rfl := Option.some.inj hwidth
        omega
      · split at hwidth
        · rename_i hhere
          exact ⟨beq_iff_eq.1 hhere, (Option.some.inj hwidth).symm⟩
        · cases hwidth
  obtain ⟨hhere, rfl⟩ := hU
  refine ⟨c.next.rest.take 8, ?_, hlength, hdigits, ?_, hcode⟩
  · rw [c.rest_of_here hhere (by decide)]
    exact List.IsPrefix.isInfix ⟨c.next.rest.drop 8, by simp⟩
  · rw [← hn, foldl_hex _ hdigits]
    rfl

/-- What a backslash announces fails for the escape that begins with it. -/
theorem gives_escaped (c : Cursor) :
    Gives (Blames ('\\' :: c.rest)) (fun r => r.2.rest <:+ c.rest) (escaped c) := by
  unfold escaped
  split
  · exact c.next_suffix
  · rename_i width _ hwidth
    extract_lets digits code
    split
    · rename_i hdigits
      simp only [Bool.and_eq_true, beq_iff_eq, digits, List.length_map, List.all_map, List.all_eq_true] at hdigits
      split
      · rename_i hcode
        exact .code (escapedCode_of_digits hwidth hdigits.1 hdigits.2 rfl hcode)
      · split <;> exact (c.next.skip_suffix _).trans c.next_suffix
    · exact blames_token _
  · split
    · have hmore := (reads_quotedBreaks (c.readBreak.2.rest.length + 1) c.readBreak.2).mono c.readBreak_suffix
      exact Gives.mono hmore (fun _ hf => hf.mono (List.suffix_cons ..).isInfix) fun _ hr => hr
    · exact blames_token _

theorem reads_quotedPiece (double : Bool) (fuel : Nat) (c : Cursor) : Reads c (quotedPiece double fuel c) := by
  induction fuel generalizing c with
  | zero => exact List.suffix_rfl
  | succ fuel ih =>
    unfold quotedPiece
    split
    rename_i cs b hb
    have hbehind : b.rest <:+ c.rest := c.suffix_of_eq (c.takeWhile_suffix _) hb
    extract_lets goOn ch
    -- what is read behind the mark here
    have hgoOn : ∀ r, Reads b r → Reads c (goOn r) := by
      intro r hr
      simp only [goOn]
      split
      · rename_i f
        exact Blames.mono hr hbehind.isInfix
      · rename_i new c'
        have hrest : c'.rest <:+ c.rest := List.IsSuffix.trans hr hbehind
        have hmore := (ih c').mono hrest
        split
        · rename_i f hf
          exact hmore.fault hf
        · rename_i more c'' hok
          exact hmore.rest hok
    split
    · exact hgoOn (.ok (_, b.skip 2)) (b.skip_suffix 2)
    · split
      · exact hgoOn (.ok (_, b.next)) b.next_suffix
      · split
        · rename_i hback
          have hrest : b.rest = '\\' :: b.next.rest :=
            b.rest_of_here (beq_iff_eq.1 (Bool.and_eq_true_iff.1 hback).2) (by decide)
          refine hgoOn _ (Gives.mono (gives_escaped b.next) (fun f hf => ?_) fun r hr => hr.trans b.next_suffix)
          rwa [hrest]
        · exact hbehind

/-- A reader of a scalar at `c` fails for what stands there, or leaves an end of it. -/
def ReadsScalar (c : Cursor) : Except Fault ScalarText → Prop :=
  Gives (Blames c.rest) fun s => s.cursor.rest <:+ c.rest

theorem readsScalar_quotedFrom (double : Bool) (fuel : Nat) (c : Cursor) :
    ReadsScalar c (quotedFrom double fuel c) := by
  induction fuel generalizing c with
  | zero => exact blames_token _
  | succ fuel ih =>
    unfold quotedFrom
    have hpiece := reads_quotedPiece double (c.rest.length + 1) c
    split
    · rename_i f hf
      exact hpiece.fault hf
    · rename_i piece behind hok
      have hbehind := hpiece.rest hok
      generalize (if double = true then '"' else '\'') = quote
      split
      · exact behind.next_suffix.trans hbehind
      · have hspaces := (reads_quotedSpaces behind).mono hbehind
        split
        · rename_i f hf
          exact hspaces.fault hf
        · rename_i spaces gap hok
          have hgap := hspaces.rest hok
          have hmore := ih gap
          split
          · rename_i f hf
            rw [hf] at hmore
            exact Blames.mono hmore hgap.isInfix
          · rename_i s hok
            rw [hok] at hmore
            exact List.IsSuffix.trans hmore hgap

theorem readsScalar_quotedScalar (double : Bool) (c : Cursor) : ReadsScalar c (quotedScalar double c) :=
  Gives.mono (readsScalar_quotedFrom double _ c.next) (fun _ hf => hf.mono c.next_suffix.isInfix)
    fun _ hs => hs.trans c.next_suffix

/-! ### Plain scalars -/

theorem plainBreaks_suffix (fuel : Nat) (c : Cursor) : (plainBreaks fuel c).2.rest <:+ c.rest := by
  induction fuel generalizing c with
  | zero => exact List.suffix_rfl
  | succ fuel ih =>
    unfold plainBreaks
    split
    · exact (ih c.next).trans c.next_suffix
    · split
      · dsimp only
        split
        · exact c.readBreak_suffix
        · exact (ih c.readBreak.2).trans c.readBreak_suffix
      · exact List.suffix_rfl

theorem plainSpaces_suffix (c : Cursor) : (plainSpaces c).cursor.rest <:+ c.rest := by
  unfold plainSpaces
  split
  rename_i spaces gap hgap
  have hgap : gap.rest <:+ c.rest := c.suffix_of_eq (c.takeWhile_suffix _) hgap
  split
  · have hbreak : gap.readBreak.2.rest <:+ c.rest := gap.readBreak_suffix.trans hgap
    have hmore := (plainBreaks_suffix (gap.readBreak.2.rest.length + 1) gap.readBreak.2).trans hbreak
    dsimp only
    split
    · exact hbreak
    · split
      · rename_i c' hc
        exact c.suffix_of_eq hmore hc
      · rename_i more c' hc
        exact c.suffix_of_eq hmore hc
  · exact hgap

theorem plainFrom_suffix (inFlow : Bool) (indent : Int) (fuel : Nat) (s : ScalarText) :
    (plainFrom inFlow indent fuel s).cursor.rest <:+ s.cursor.rest := by
  induction fuel generalizing s with
  | zero => exact List.suffix_rfl
  | succ fuel ih =>
    unfold plainFrom
    extract_lets piece gap c more
    have hgap : gap.cursor.rest <:+ s.cursor.rest := by
      simp only [gap]
      exact (plainSpaces_suffix (s.cursor.skip piece.length)).trans (s.cursor.skip_suffix piece.length)
    clear_value gap
    split
    · exact List.suffix_rfl
    · split
      · exact hgap
      · exact (ih gap).trans hgap

/-! ### Block scalars -/

theorem reads_blockHeader (c : Cursor) : Reads c (blockHeader c) := by
  unfold blockHeader
  extract_lets digit
  split
  rename_i chomp c₁ h₁
  have hc₁ : c₁.rest <:+ c.rest := by
    split at h₁ <;> cases h₁
    · exact c.next_suffix
    · exact List.suffix_rfl
  split
  rename_i width c₂ h₂
  have hc₂ : c₂.rest <:+ c₁.rest := by
    split at h₂ <;> cases h₂
    · exact c₁.next_suffix
    · exact List.suffix_rfl
  split
  rename_i chomp' c₃ h₃
  have hc₃ : c₃.rest <:+ c₂.rest := by
    split at h₃ <;> cases h₃
    · exact List.suffix_rfl
    · exact c₂.next_suffix
    · exact List.suffix_rfl
  split
  · exact reads_token
  · exact hc₃.trans (hc₂.trans hc₁)

theorem restOfLine_gives (c : Cursor) : Gives (Blames c.rest) (fun c' => c'.rest <:+ c.rest) (restOfLine c) := by
  unfold restOfLine
  extract_lets gap
  have hgap : gap.rest <:+ c.rest := (Cursor.skipComment_suffix _).trans (c.dropWhile_suffix _)
  split
  · exact gap.readBreak_suffix.trans hgap
  · exact blames_token _

theorem blockIndentation_suffix (fuel most : Nat) (c : Cursor) : (blockIndentation fuel most c).2.rest <:+ c.rest := by
  induction fuel generalizing most c with
  | zero => exact List.suffix_rfl
  | succ fuel ih =>
    unfold blockIndentation
    split
    · exact (ih _ c.next).trans c.next_suffix
    · split
      · exact (ih _ c.readBreak.2).trans c.readBreak_suffix
      · exact List.suffix_rfl

theorem skipIndent_suffix (indent : Nat) (c : Cursor) : (skipIndent indent c).rest <:+ c.rest := c.skip_suffix _

theorem blockBreaks_suffix (indent fuel : Nat) (c : Cursor) : (blockBreaks indent fuel c).2.rest <:+ c.rest := by
  induction fuel generalizing c with
  | zero => exact List.suffix_rfl
  | succ fuel ih =>
    unfold blockBreaks
    extract_lets c'
    have hc' : c'.rest <:+ c.rest := skipIndent_suffix indent c
    split
    · exact (ih c'.readBreak.2).trans (c'.readBreak_suffix.trans hc')
    · exact hc'

theorem blockLines_suffix (folded : Bool) (indent : Nat) (chomp : Chomp) (fuel : Nat) (before : List Char) (c : Cursor) :
    (blockLines folded indent chomp fuel before c).2.rest <:+ c.rest := by
  induction fuel generalizing before c with
  | zero => exact List.suffix_rfl
  | succ fuel ih =>
    unfold blockLines
    extract_lets isText flush
    split
    rename_i line c₁ h₁
    have hc₁ : c₁.rest <:+ c.rest := c.suffix_of_eq (c.takeWhile_suffix _) h₁
    split
    rename_i br c₂ h₂
    have hc₂ : c₂.rest <:+ c.rest := (c₁.suffix_of_eq c₁.readBreak_suffix h₂).trans hc₁
    split
    rename_i breaks c₃ h₃
    have hc₃ : c₃.rest <:+ c.rest := (c₂.suffix_of_eq (blockBreaks_suffix indent _ c₂) h₃).trans hc₂
    split
    · exact (ih _ c₃).trans hc₃
    · exact hc₃

theorem readsScalar_blockScalar (folded : Bool) (outer : Int) (c : Cursor) :
    ReadsScalar c (blockScalar folded outer c) := by
  unfold blockScalar
  have hheader := (reads_blockHeader c.next).mono c.next_suffix
  split
  · rename_i f hf
    exact hheader.fault hf
  · rename_i chomp width c₁ hok
    have hc₁ := hheader.rest hok
    have hline := restOfLine_gives c₁
    split
    · rename_i f hf
      rw [hf] at hline
      exact Blames.mono hline hc₁.isInfix
    · rename_i c₂ hok
      rw [hok] at hline
      have hc₂ : c₂.rest <:+ c.rest := List.IsSuffix.trans hline hc₁
      extract_lets least fuel
      split
      rename_i breaks indent c₃ h₃
      have hc₃ : c₃.rest <:+ c.rest := by
        refine List.IsSuffix.trans ?_ hc₂
        cases width with
        | none =>
          obtain ⟨_, rfl⟩ := Prod.mk.inj h₃
          exact blockIndentation_suffix fuel 0 c₂
        | some w =>
          obtain ⟨_, rfl⟩ := Prod.mk.inj h₃
          exact blockBreaks_suffix _ fuel c₂
      split
      · split
        rename_i text c₄ h₄
        have hc₄ : c₄.rest <:+ c₃.rest := c₃.suffix_of_eq (blockLines_suffix folded indent chomp fuel breaks c₃) h₄
        exact hc₄.trans hc₃
      · exact hc₃

end Yaml
end PageComposer
