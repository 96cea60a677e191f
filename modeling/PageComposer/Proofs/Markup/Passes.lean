/-
# Passes that agree

A pass takes one step after the other, and every step takes a character, so a pass does not depend on how much
fuel is left (`pass_fuel`): a whole pass is its first step and a whole pass over the rest (`wholePass_go`).

Two passes agree where they give the same tokens but for the pieces that character data is cut into (`Alike`), and
leave the same text (`Agree`).  A builder joins the pieces, so the documents are the same then
(`parse_eq_of_agree`).
-/

import PageComposer.Proofs.Markup.Numerals
import PageComposer.Proofs.Markup.RoundTrip

namespace PageComposer
namespace Markup

/-! ### Whole passes -/

/-- One step in a mode. -/
def nextStep (last : Bool) (raw : Option String) (cs : List Char) : Except Fault Step :=
  match raw with
  | some name => .ok (rawStep name cs)
  | none => step last cs

/-- What a pass gives: its tokens, the mode at its end and what it leaves. -/
abbrev PassResult := Except Fault (List Token × Option String × List Char)

/-- What a pass gives, behind more tokens. -/
def prepend (ts : List Token) (r : PassResult) : PassResult := r.map fun (more, raw, left) => (ts ++ more, raw, left)

variable {last : Bool} {raw raw' : Option String} {cs rest : List Char} {ts us : List Token}

theorem leaves_of_nextStep {s : Step} (h : nextStep last raw cs = .ok s) : s.Leaves cs := by
  cases raw with
  | some name =>
    obtain rfl := Except.ok.inj h
    exact rawStep_leaves name cs
  | none =>
    have hstep := gives_step last cs
    rw [show step last cs = .ok s from h] at hstep
    exact hstep

/-- A step that goes on leaves less. -/
theorem length_lt_of_nextStep (hne : cs ≠ []) (h : nextStep last raw cs = .ok (.go ts raw' rest)) :
    rest.length < cs.length := by
  have hrest : rest.length ≤ cs.tail.length := (leaves_of_nextStep h).length_le
  have hlength := List.length_pos_iff.2 hne
  rw [List.length_tail] at hrest
  omega

/-- What a step gives, with what the pass gives for the rest. -/
def Step.onward (more : Option String → List Char → PassResult) (raw : Option String) : Step → PassResult
  | .go ts raw rest => prepend ts (more raw rest)
  | .stop ts rest => .ok (ts, raw, rest)

/-- **A pass takes a step and goes on from there.** -/
theorem pass_succ (hne : cs ≠ []) (fuel : Nat) :
    pass last (fuel + 1) raw cs = nextStep last raw cs >>= Step.onward (pass last fuel) raw := by
  obtain ⟨c, cs, rfl⟩ := List.exists_cons_of_ne_nil hne
  have hgo (next : Step) :
      (match next with
        | .go ts raw rest => do
          let (more, raw, left) ← pass last fuel raw rest
          pure (ts ++ more, raw, left)
        | .stop ts rest => pure (ts, raw, rest) : PassResult) = next.onward (pass last fuel) raw := by
    cases next with
    | stop ts rest => rfl
    | go ts raw rest =>
      simp only [Step.onward]
      cases pass last fuel raw rest <;> rfl
  cases raw with
  | some name => exact hgo (rawStep name (c :: cs))
  | none =>
    simp only [nextStep]
    cases hs : step last (c :: cs) with
    | error f => simp only [pass, hs]; rfl
    | ok next => simp only [pass, hs]; exact hgo next

/-- **A pass does not depend on how much fuel is left**, if that is enough. -/
theorem pass_fuel {fuel fuel' : Nat} (h : cs.length < fuel) (h' : cs.length < fuel') :
    pass last fuel raw cs = pass last fuel' raw cs := by
  induction fuel generalizing fuel' raw cs with
  | zero => omega
  | succ fuel ih =>
    obtain ⟨fuel', rfl⟩ : ∃ k, fuel' = k + 1 := ⟨fuel' - 1, by omega⟩
    by_cases hne : cs = []
    · subst hne
      rfl
    · rw [pass_succ hne, pass_succ hne]
      cases hs : nextStep last raw cs with
      | error f => rfl
      | ok next =>
        cases next with
        | stop ts rest => rfl
        | go ts raw' rest =>
          have hless := length_lt_of_nextStep hne hs
          exact congrArg (prepend ts) (ih (by omega) (by omega))

/-- A pass over a text, from a mode to its end. -/
def wholePass (last : Bool) (raw : Option String) (cs : List Char) : PassResult :=
  pass last (cs.length + 1) raw cs

/-- **A whole pass is its first step and a whole pass over the rest.** -/
theorem wholePass_go (hne : cs ≠ []) (h : nextStep last raw cs = .ok (.go ts raw' rest)) :
    wholePass last raw cs = prepend ts (wholePass last raw' rest) := by
  have hless := length_lt_of_nextStep hne h
  rw [wholePass, pass_succ hne, h]
  exact congrArg (prepend ts) (pass_fuel hless (Nat.lt_succ_self _))

/-- The same tokens but for the pieces that character data is cut into. -/
inductive Alike : List Token → List Token → Prop
  | nil : Alike [] []
  | cons (t : Token) {ts us : List Token} (h : Alike ts us) : Alike (t :: ts) (t :: us)
  | text {cs : List Char} {pieces : List (List Char)} {ts us : List Token} (hcs : cs ≠ [])
      (hpieces : pieces.flatten = cs) (h : Alike ts us) : Alike (.text cs :: ts) (pieces.map .text ++ us)

theorem Alike.refl (ts : List Token) : Alike ts ts := by
  induction ts with
  | nil => exact .nil
  | cons t ts ih => exact .cons t ih

theorem Alike.append (h : Alike ts us) (more : List Token) : Alike (ts ++ more) (us ++ more) := by
  induction h with
  | nil => exact .refl more
  | cons t _ ih => exact .cons t ih
  | text hcs hpieces _ ih =>
    rw [List.append_assoc]
    exact .text hcs hpieces ih

theorem Alike.prepend (more : List Token) (h : Alike ts us) : Alike (more ++ ts) (more ++ us) := by
  induction more with
  | nil => exact h
  | cons t more ih => exact .cons t ih

namespace Builder

/-- Builders that hold the same, the collected character data in pieces of any kind. -/
structure Same (b b' : Builder) : Prop where
  opened : b.opened = b'.opened
  items : b.items = b'.items
  closed : b.closed = b'.closed
  data : b.data.reverse.flatten = b'.data.reverse.flatten
  empty : b.data = [] ↔ b'.data = []

variable {b b' : Builder}

theorem Same.refl (b : Builder) : b.Same b := ⟨rfl, rfl, rfl, rfl, .rfl⟩

/-- The pieces make no difference once they are joined. -/
theorem Same.flush (h : b.Same b') : b.flush = b'.flush := by
  obtain ⟨opened, items, data, closed⟩ := b
  obtain ⟨opened', items', data', closed'⟩ := b'
  obtain ⟨rfl, rfl, rfl, hdata, hempty⟩ := h
  dsimp only at hdata hempty
  cases data with
  | nil =>
    obtain rfl := hempty.1 rfl
    rfl
  | cons piece pieces =>
    cases data' with
    | nil => exact absurd (hempty.2 rfl) (List.cons_ne_nil _ _)
    | cons piece' pieces' =>
      simp only [Builder.flush, hdata]
      rfl

theorem Same.take (h : b.Same b') (t : Token) : (b.take t).Same (b'.take t) := by
  cases t with
  | text s =>
    refine ⟨h.opened, h.items, h.closed, ?_, by simp [Builder.take]⟩
    simp [Builder.take, h.data]
  | endTag name =>
    simp only [Builder.take, Builder.writtenEnd, h.closed, Builder.endElement, h.flush]
    split
    · exact ⟨h.opened, h.items, rfl, h.data, h.empty⟩
    · exact .refl _
  | startTag name attrs closed =>
    have hopen : b.openElement name attrs = b'.openElement name attrs := by
      simp only [Builder.openElement, h.flush]
    cases closed <;> simp only [Builder.take, hopen] <;> exact .refl _
  | marked s =>
    simp only [Builder.take, Builder.literal, h.flush]
    exact .refl _
  | comment s | instruction s | doctype s =>
    simp only [Builder.take, Builder.literal, h.flush]
    exact .refl _

/-- **Alike tokens build the same.** -/
theorem Same.foldl {ts us : List Token} (ht : Alike ts us) (h : b.Same b') :
    (ts.foldl Builder.take b).Same (us.foldl Builder.take b') := by
  induction ht generalizing b b' with
  | nil => exact h
  | cons t _ ih => exact ih (h.take t)
  | @text cs pieces _ _ hcs hpieces _ ih =>
    rw [List.foldl_cons, List.foldl_append, foldl_take_text]
    refine ih ⟨h.opened, h.items, h.closed, ?_, ?_⟩
    · simp [Builder.take, h.data, hpieces]
    · have hne : pieces ≠ [] := by
        rintro rfl
        exact hcs hpieces.symm
      simp [Builder.take, hne]

theorem Same.finish (h : b.Same b') : b.finish = b'.finish := by
  simp only [Builder.finish, h.flush]

end Builder

/-! ### Passes that agree -/

/-- Two passes give alike tokens and leave the same, or meet the same fault. -/
inductive Agree : PassResult → PassResult → Prop
  | error (f : Fault) : Agree (.error f) (.error f)
  | ok {ts us : List Token} (raw : Option String) (rest : List Char) (h : Alike ts us) :
      Agree (.ok (ts, raw, rest)) (.ok (us, raw, rest))

theorem Agree.refl (r : PassResult) : Agree r r := by
  cases r with
  | error f => exact .error f
  | ok r => exact .ok _ _ (.refl _)

variable {r r' : PassResult}

theorem Agree.prepend (ts : List Token) (h : Agree r r') : Agree (prepend ts r) (prepend ts r') := by
  cases h with
  | error f => exact .error f
  | ok raw rest h => exact .ok raw rest (h.prepend ts)

/-- The tokens behind a first pass. -/
def laterTokens (raw : Option String) (rest : List Char) : Except Fault (List Token) := do
  let (second, raw, rest) ← pass true (rest.length + 1) raw rest
  let tail := if raw.isNone && !rest.isEmpty then [Token.text rest] else []
  pure (second ++ tail)

theorem tokens_eq (s : String) :
    tokens s = (do
      let (first, raw, rest) ← wholePass false none s.toList
      let later ← laterTokens raw rest
      pure (first ++ later)) := by
  unfold tokens laterTokens wholePass
  simp only [bind_assoc, pure_bind, List.append_assoc]

end Markup
end PageComposer
