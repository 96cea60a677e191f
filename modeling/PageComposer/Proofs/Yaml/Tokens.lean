/-
# What ends the reading of tokens

The readers of names, tags and directives, and the lexer that calls all readers, fail only for what `Blames` names of
the text that is left to them.  So does the whole text (`blames_of_tokens`).
-/

import PageComposer.Proofs.Yaml.Scanning

namespace PageComposer
namespace Yaml

open Markup (Gives LongNumeral)

/-! ### Names, tags and directives -/

theorem reads_escapedBytes (fuel : Nat) (c : Cursor) : Reads c (escapedBytes fuel c) := by
  induction fuel generalizing c with
  | zero => exact List.suffix_rfl
  | succ fuel ih =>
    unfold escapedBytes
    split
    · split
      · have hmore := (ih (c.skip 3)).mono (c.skip_suffix 3)
        split
        · rename_i f hf
          exact hmore.fault hf
        · rename_i bs c' hok
          exact hmore.rest hok
      · exact reads_token
    · exact List.suffix_rfl

theorem reads_tagChars (fuel : Nat) (c : Cursor) : Reads c (tagChars fuel c) := by
  induction fuel generalizing c with
  | zero => exact List.suffix_rfl
  | succ fuel ih =>
    unfold tagChars
    split
    rename_i cs behind hbehind
    have hbehind : behind.rest <:+ c.rest := c.suffix_of_eq (c.takeWhile_suffix _) hbehind
    split
    · have hbytes := (reads_escapedBytes (behind.rest.length + 1) behind).mono hbehind
      split
      · rename_i f hf
        exact hbytes.fault hf
      · rename_i bs c' hok
        split
        · exact reads_token
        · have hmore := (ih c').mono (hbytes.rest hok)
          split
          · rename_i f hf
            exact hmore.fault hf
          · rename_i more _ c'' hok
            exact hmore.rest hok
    · exact hbehind

theorem reads_tagUri (c : Cursor) : Reads c (tagUri c) := by
  unfold tagUri
  have hchars := reads_tagChars (c.rest.length + 1) c
  split
  · rename_i f hf
    exact hchars.fault hf
  · exact reads_token
  · rename_i cs c' hok
    exact hchars.rest hok

theorem reads_tagHandle (c : Cursor) : Reads c (tagHandle c) := by
  unfold tagHandle
  split
  · exact reads_token
  · split
    · exact c.next_suffix
    · split
      rename_i name behind hbehind
      have hbehind : behind.rest <:+ c.next.rest := c.next.suffix_of_eq (c.next.takeWhile_suffix _) hbehind
      split
      · exact behind.next_suffix.trans (hbehind.trans c.next_suffix)
      · exact reads_token

theorem reads_tagText (c : Cursor) : Reads c (tagText c) := by
  unfold tagText
  extract_lets atEnd
  have hend : ∀ t c', c'.rest <:+ c.rest → Reads c (atEnd (t, c')) := by
    intro t c' hc'
    simp only [atEnd]
    split
    · exact hc'
    · exact reads_token
  split
  · refine Reads.bind ((reads_tagUri (c.skip 2)).mono (c.skip_suffix 2)) fun uri c' hc' => ?_
    dsimp only
    split
    · exact hend _ _ (c'.next_suffix.trans hc')
    · exact reads_throw
  · split
    · exact hend _ _ c.next_suffix
    · rename_i word withHandle _ _
      have huri : ∀ handle c', c'.rest <:+ c.rest → Reads c (withHandle (handle, c')) := by
        intro handle c' hc'
        exact Reads.bind ((reads_tagUri c').mono hc') fun uri c'' hc'' => hend _ _ hc''
      split
      · exact Reads.bind (reads_tagHandle c) huri
      · exact huri _ _ c.next_suffix

theorem reads_anchorName (c : Cursor) : Reads c (anchorName c) := by
  unfold anchorName
  split
  rename_i name behind hbehind
  have hbehind : behind.rest <:+ c.next.rest := c.next.suffix_of_eq (c.next.takeWhile_suffix _) hbehind
  split
  · exact reads_token
  · split
    · exact hbehind.trans c.next_suffix
    · exact reads_token

/-- A number of a version is refused only for the number of its digits. -/
theorem reads_directiveNumber (c : Cursor) : Reads c (directiveNumber c) := by
  unfold directiveNumber
  split
  rename_i ds behind hbehind
  obtain rfl : c.rest.takeWhile Text.isAsciiDigit = ds := (Prod.mk.inj hbehind).1
  have hbehind : behind.rest <:+ c.rest := c.suffix_of_eq (c.takeWhile_suffix _) hbehind
  split
  · exact reads_token
  · split
    · exact hbehind
    · rename_i f hf
      unfold Decimal.boundedOfDigits at hf
      split at hf
      · rename_i hlong
        obtain rfl := Except.error.inj hf
        rw [List.length_map] at hlong ⊢
        exact .version ⟨_, (List.takeWhile_prefix _).isInfix, List.all_eq_true.1 List.all_takeWhile, hlong, rfl⟩
      · cases hf

theorem reads_directive (c : Cursor) : Reads c (directive c) := by
  unfold directive
  split
  rename_i name c₁ h₁
  have hc₁ : c₁.rest <:+ c.rest := (c.next.suffix_of_eq (c.next.takeWhile_suffix _) h₁).trans c.next_suffix
  extract_lets spaceless atEnd body
  have hspaceless : ∀ c' : Cursor, (spaceless c').rest <:+ c'.rest := fun c' => c'.dropWhile_suffix _
  have hend : ∀ d c', c'.rest <:+ c.rest → Reads c (atEnd (d, c')) := by
    intro d c' hc'
    exact Gives.bind (Gives.mono (restOfLine_gives c') (fun _ hf => hf.mono hc'.isInfix) fun _ h => h.trans hc')
      fun _ h => h
  clear_value atEnd
  have hbody : Reads c (body ()) := by
    simp only [body]
    split
    · refine Reads.bind ((reads_directiveNumber _).mono ((hspaceless c₁).trans hc₁)) fun major c₂ hc₂ => ?_
      dsimp only
      split
      · exact reads_throw
      · refine Reads.bind ((reads_directiveNumber _).mono (c₂.next_suffix.trans hc₂)) fun minor c₃ hc₃ => ?_
        dsimp only
        split
        · rw [pure_bind]
          exact hend _ _ hc₃
        · exact reads_throw
    · split
      · refine Reads.bind ((reads_tagHandle _).mono ((hspaceless c₁).trans hc₁)) fun handle c₂ hc₂ => ?_
        dsimp only
        split
        · exact reads_throw
        · refine Reads.bind ((reads_tagUri _).mono ((hspaceless c₂).trans hc₂)) fun uri c₃ hc₃ => ?_
          dsimp only
          split
          · rw [pure_bind]
            exact hend _ _ hc₃
          · exact reads_throw
      · rw [pure_bind]
        exact hend _ _ ((c₁.dropWhile_suffix _).trans hc₁)
  split
  · exact reads_throw
  · exact hbody

/-! ### The lexer -/

namespace Lexer

/-- A step of the lexer fails for what is left of the text, or leaves an end of it. -/
def Advances (l : Lexer) : Except Fault Lexer → Prop :=
  Gives (Blames l.cursor.rest) fun l' => l'.cursor.rest <:+ l.cursor.rest

/-- A step of the lexer fails for the notation, or stays where it is. -/
def Stays (l : Lexer) : Except Fault Lexer → Prop :=
  Gives (· = .token) fun l' => l'.cursor = l.cursor

variable {l : Lexer}

theorem advances_token : l.Advances (.error .token) := blames_token _

theorem Stays.bind {l' : Lexer} {r : Except Fault Lexer} {next : Lexer → Except Fault Lexer} (h : l'.Stays r)
    (hl : l'.cursor = l.cursor) (hnext : ∀ m, m.cursor = l.cursor → l.Advances (next m)) :
    l.Advances (r >>= next) :=
  Gives.bind (Gives.mono h (fun _ hf => hf ▸ blames_token _) fun _ hm => hm.trans hl) hnext

/-- A step ends one character behind where it was. -/
theorem advances_skip {m : Lexer} (n : Nat) (hm : m.cursor = l.cursor) :
    (m.cursor.skip n).rest <:+ l.cursor.rest :=
  hm ▸ m.cursor.skip_suffix n

theorem Advances.mono {r : Except Fault Lexer} (l' : Lexer) (hs : l'.cursor.rest <:+ l.cursor.rest)
    (h : l'.Advances r) : l.Advances r :=
  Gives.mono h (fun _ hf => hf.mono hs.isInfix) fun _ hr => hr.trans hs

/-- A reader where the lexer is, whatever is made of its result. -/
theorem advances_of_reads {α : Type} {l' : Lexer} {r : Except Fault (α × Cursor)}
    {next : α × Cursor → Except Fault Lexer} (h : Reads l'.cursor r) (hl : l'.cursor = l.cursor)
    (hnext : ∀ a c', c'.rest <:+ l.cursor.rest → l.Advances (next (a, c'))) : l.Advances (r >>= next) := by
  rw [hl] at h
  exact Gives.bind h fun a ha => hnext a.1 a.2 ha

theorem stays_dropStale (l : Lexer) : l.Stays l.dropStale := by
  unfold dropStale
  split <;> rfl

theorem stays_dropMark (l : Lexer) : l.Stays l.dropMark := by
  unfold dropMark
  split
  · split <;> rfl
  · rfl

theorem stays_markKey (l : Lexer) : l.Stays l.markKey := by
  unfold markKey
  split
  · have h := l.stays_dropMark
    split
    · rename_i f hf
      rw [hf] at h
      exact h
    · rename_i l' hok
      rw [hok] at h
      exact h
  · rfl

@[simp] theorem unwind_cursor (l : Lexer) (column : Int) : (l.unwind column).cursor = l.cursor := by
  unfold unwind
  split <;> rfl

@[simp] theorem openBlock_cursor (l : Lexer) (column : Int) (number : Nat) (t : Token) :
    (l.openBlock column number t).cursor = l.cursor := by
  unfold openBlock
  split <;> rfl

theorem toNextToken_suffix (fuel : Nat) (l : Lexer) : (toNextToken fuel l).cursor.rest <:+ l.cursor.rest := by
  induction fuel generalizing l with
  | zero => exact List.suffix_rfl
  | succ fuel ih =>
    unfold toNextToken
    extract_lets c
    have hc : c.rest <:+ l.cursor.rest := (Cursor.skipComment_suffix _).trans (l.cursor.dropWhile_suffix _)
    split
    · exact (ih _).trans (c.readBreak_suffix.trans hc)
    · exact hc

theorem advances_edge (l : Lexer) (t : Token) (n : Nat) : l.Advances (l.edge t n) :=
  Stays.bind (l.unwind (-1)).stays_dropMark (l.unwind_cursor _) fun _ hm => advances_skip n hm

theorem advances_finish (l : Lexer) : l.Advances l.finish :=
  Gives.bind (l.advances_edge .streamEnd 0) fun _ hm => hm

theorem advances_readDirective (l : Lexer) : l.Advances l.readDirective :=
  Stays.bind (l.unwind (-1)).stays_dropMark (l.unwind_cursor _) fun m hm =>
    advances_of_reads (reads_directive m.cursor) hm fun _ _ hc => hc

theorem advances_openFlow (l : Lexer) (t : Token) : l.Advances (l.openFlow t) :=
  Stays.bind l.stays_markKey rfl fun _ hm => advances_skip 1 hm

theorem advances_closeFlow (l : Lexer) (t : Token) : l.Advances (l.closeFlow t) :=
  Stays.bind l.stays_dropMark rfl fun _ hm => advances_skip 1 hm

theorem advances_readFlowEntry (l : Lexer) : l.Advances l.readFlowEntry :=
  Stays.bind l.stays_dropMark rfl fun _ hm => advances_skip 1 hm

/-- The lexer with a block collection opened outside flow collections. -/
theorem cursor_opened (l : Lexer) (column : Int) (number : Nat) (t : Token) :
    (if l.inFlow then l else l.openBlock column number t).cursor = l.cursor := by
  split
  · rfl
  · exact l.openBlock_cursor column number t

theorem advances_readBlockEntry (l : Lexer) : l.Advances l.readBlockEntry := by
  unfold readBlockEntry
  extract_lets opened
  split
  · exact blames_token _
  · exact Stays.bind (stays_dropMark _) (l.cursor_opened ..) fun _ hm => advances_skip 1 hm

theorem advances_readKey (l : Lexer) : l.Advances l.readKey := by
  unfold readKey
  extract_lets opened
  split
  · exact blames_token _
  · exact Stays.bind (stays_dropMark _) (l.cursor_opened ..) fun _ hm => advances_skip 1 hm

theorem advances_readColon (l : Lexer) : l.Advances l.readColon := by
  unfold readColon
  split
  · exact advances_skip 1 (cursor_opened _ _ _ _)
  · extract_lets opened
    split
    · exact blames_token _
    · exact Stays.bind (stays_dropMark _) (l.cursor_opened ..) fun _ hm => advances_skip 1 hm

theorem advances_readProperty {α : Type} (l : Lexer) {read : Cursor → Except Fault (α × Cursor)}
    (hread : ∀ c, Reads c (read c)) (token : α → Token) : l.Advances (l.readProperty read token) :=
  Stays.bind l.stays_markKey rfl fun m hm => advances_of_reads (hread m.cursor) hm fun _ _ hc => hc

/-- A reader of a scalar where the lexer is. -/
theorem advances_of_readsScalar {m : Lexer} {r : Except Fault ScalarText} {next : ScalarText → Except Fault Lexer}
    (h : ReadsScalar m.cursor r) (hm : m.cursor = l.cursor)
    (hnext : ∀ s, s.cursor.rest <:+ l.cursor.rest → l.Advances (next s)) : l.Advances (r >>= next) := by
  rw [hm] at h
  exact Gives.bind h hnext

theorem advances_readBlock (l : Lexer) (folded : Bool) : l.Advances (l.readBlock folded) :=
  Stays.bind l.stays_dropMark rfl fun m hm =>
    advances_of_readsScalar (readsScalar_blockScalar folded m.indent m.cursor) hm fun _ hs => hs

theorem advances_readQuoted (l : Lexer) (double : Bool) : l.Advances (l.readQuoted double) :=
  Stays.bind l.stays_markKey rfl fun m hm =>
    advances_of_readsScalar (readsScalar_quotedScalar double m.cursor) hm fun _ hs => hs

theorem advances_readPlain (l : Lexer) : l.Advances l.readPlain := by
  refine Stays.bind l.stays_markKey rfl fun m hm => ?_
  have hplain := plainFrom_suffix m.inFlow (m.indent + 1) (m.cursor.rest.length + 1) ⟨[], m.cursor, false⟩
  rw [hm] at hplain
  exact hm ▸ hplain

theorem Advances.ite {p : Prop} [Decidable p] {r s : Except Fault Lexer} (hr : l.Advances r) (hs : l.Advances s) :
    l.Advances (if p then r else s) := by
  split
  · exact hr
  · exact hs

/-- One step fails for what is left of the text, or leaves an end of it. -/
theorem advances_read (l : Lexer) : l.Advances l.read := by
  refine Advances.mono (toNextToken (l.cursor.rest.length + 1) l) (toNextToken_suffix _ l) ?_
  refine Stays.bind (stays_dropStale _) rfl fun m hm => ?_
  -- the step depends on where `m` is only
  unfold Advances
  rw [← hm, ← m.unwind_cursor m.column]
  change (m.unwind m.column).Advances _
  dsimp only
  generalize m.unwind m.column = m
  exact .ite m.advances_finish <| .ite m.advances_readDirective <| .ite (m.advances_edge ..) <|
    .ite (m.advances_edge ..) <| .ite (m.advances_openFlow _) <| .ite (m.advances_openFlow _) <|
    .ite (m.advances_closeFlow _) <| .ite (m.advances_closeFlow _) <| .ite m.advances_readFlowEntry <|
    .ite m.advances_readBlockEntry <| .ite m.advances_readKey <| .ite m.advances_readColon <|
    .ite (m.advances_readProperty reads_anchorName _) <| .ite (m.advances_readProperty reads_anchorName _) <|
    .ite (m.advances_readProperty reads_tagText _) <| .ite (m.advances_readBlock _) <|
    .ite (m.advances_readBlock _) <| .ite (m.advances_readQuoted _) <| .ite (m.advances_readQuoted _) <|
    .ite m.advances_readPlain advances_token

theorem advances_step (l : Lexer) : l.Advances (l.read >>= dropStale) := by
  refine Gives.bind l.advances_read fun m hm => ?_
  refine Gives.mono m.stays_dropStale (fun f hf => ?_) fun m' hs => ?_
  · rw [hf]
    exact blames_token _
  · rw [hs]
    exact hm

/-- The lexer takes a step where it has not come to the end. -/
theorem run_succ (fuel : Nat) (l : Lexer) : run (fuel + 1) l =
    if l.finished then (l.tokens.toList, none)
    else
      match l.read >>= dropStale with
      | .error f => (l.tokens.toList.take l.certain, some f)
      | .ok l => run fuel l := by
  delta run
  rfl

/-- The steps up to the end of a text fail for what is left of it. -/
theorem blames_of_run {fuel : Nat} {f : Fault} (h : (run fuel l).2 = some f) : Blames l.cursor.rest f := by
  induction fuel generalizing l with
  | zero => cases h
  | succ fuel ih =>
    have hstep := l.advances_step
    rw [run_succ] at h
    split at h
    · cases h
    · split at h
      · rename_i g hg
        obtain rfl := Option.some.inj h
        rw [hg] at hstep
        exact hstep
      · rename_i m hok
        rw [hok] at hstep
        have hrest : m.cursor.rest <:+ l.cursor.rest := hstep
        exact (ih h).mono hrest.isInfix

end Lexer

/-- **Reading the tokens of a text ends for the notation, or for a code or a number that stands in it.** -/
theorem blames_of_tokens {cs : List Char} {f : Fault} (h : (tokens cs).2 = some f) : Blames cs f := by
  unfold tokens at h
  extract_lets start c at h
  have hc : c.rest <:+ cs := by
    simp only [c]
    split
    · exact start.next_suffix
    · exact List.suffix_rfl
  exact (Lexer.blames_of_run h).mono hc.isInfix

end Yaml
end PageComposer
