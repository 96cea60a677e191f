/-
# Text that an encoding holds by references

An encoding holds a character that it lacks as a decimal reference (`Text.held`).  Whether the text is still
read as the same document depends on where such characters stand.

| where | what is read | condition |
| --- | --- | --- |
| running text | the reference as the character | `numbered` gives the character back |
| a value in quotes | the reference as the character | the character is not dropped either (`numberedInValue`) |
| anywhere else | the characters of the reference | no such character may stand there |

A text in which they stand in such places only is carried (`Carried`), and is read as the same document
(`parse_held`).  A document without script and style sheets is carried where no such character is in its
comments, and all can be read back (`carried_render`).
-/

import PageComposer.Proofs.Decimal.Conversion
import PageComposer.Proofs.Markup.Passes
import PageComposer.Proofs.Text.Codecs

namespace PageComposer
namespace Markup

/-! ### Decimal references -/

variable {e : Text.Encoding}

/-- How an encoding holds a character of a value that is rendered. -/
def spelled (e : Text.Encoding) (c : Char) : List Char := (quotedChar c).flatMap (Text.held e)

/-- In a text that is read from a mode, the characters that an encoding lacks stand where their references are
read: in running text and in values. -/
inductive Carried (e : Text.Encoding) : Option String → List Char → Prop
  /-- There are none. -/
  | held {raw : Option String} {cs : List Char} (has : ∀ c ∈ cs, Text.lacks e c = false) : Carried e raw cs
  /-- There are none in what the first step takes, nor in what it looks at. -/
  | step {raw raw' : Option String} {taken seen rest : List Char} {ts : List Token} (some : taken ≠ [])
      (has : ∀ c ∈ taken ++ seen, Text.lacks e c = false)
      (takes : ∀ more, nextStep false raw (taken ++ (seen ++ more)) = .ok (.go ts raw' (seen ++ more)))
      (behind : Carried e raw' (seen ++ rest)) : Carried e raw (taken ++ (seen ++ rest))
  /-- Running text. -/
  | text {run rest : List Char} (some : run ≠ []) (plain : ∀ c ∈ run, c ≠ '<' ∧ c ≠ '&')
      (numbers : ∀ c ∈ run, Text.lacks e c = true → numbered c.toNat = c)
      (stop : ∀ c ∈ rest.head?, c = '<' ∨ c = '&') (behind : Carried e none rest) : Carried e none (run ++ rest)
  /-- A start tag as it is rendered. -/
  | startTag {tag : String} {attrs : Attrs} {rest : List Char} (name : isTagName tag = true)
      (written : WrittenAttrs attrs)
      (numbers : ∀ a ∈ attrs, ∀ c ∈ readValue a.2, Text.lacks e c = true → numberedInValue c.toNat = [c])
      (behind : Carried e (opensRaw [.startTag tag (tokenAttrs attrs) false]) rest) :
      Carried e none ((startTagText tag attrs).toList ++ rest)

/-- A step that looks at nothing behind what it takes. -/
theorem Carried.step_alone {taken rest : List Char} {ts : List Token} (some : taken ≠ [])
    (has : ∀ c ∈ taken, Text.lacks e c = false)
    (takes : ∀ more, Markup.step false (taken ++ more) = .ok (.go ts none more)) (behind : Carried e none rest) :
    Carried e none (taken ++ rest) := by
  have hstep : Carried e none (taken ++ ([] ++ rest)) := .step some (by simpa using has) takes behind
  exact hstep

/-- A run of character data is carried, also an empty one. -/
theorem Carried.run {run rest : List Char} (plain : ∀ c ∈ run, isEscaped c = false)
    (numbers : ∀ c ∈ run, Text.lacks e c = true → numbered c.toNat = c)
    (stop : ∀ c ∈ rest.head?, c = '<' ∨ c = '&') (behind : Carried e none rest) :
    Carried e none (run ++ rest) := by
  by_cases hne : run = []
  · rwa [hne]
  · refine .text hne (fun c hc => ?_) numbers stop behind
    have hplain := plain c hc
    simp only [isEscaped, Bool.or_eq_false_iff, beq_eq_false_iff_ne] at hplain
    exact ⟨hplain.1.2, hplain.1.1⟩

/-- An end tag is carried. -/
theorem Carried.endTag {tag : String} (ht : isTagName tag = true) {rest : List Char} (behind : Carried e none rest) :
    Carried e none (('<' :: '/' :: (tag.toList ++ ['>'])) ++ rest) := by
  have htakes (more : List Char) :
      Markup.step false (('<' :: '/' :: (tag.toList ++ ['>'])) ++ more) = .ok (.go [.endTag tag] none more) := by
    simpa using step_endTag ht false more
  refine .step_alone (List.cons_ne_nil _ _) (fun c hc => Text.lacks_ascii ?_ e) htakes behind
  simp only [List.mem_cons, List.mem_append, List.not_mem_nil, or_false] at hc
  obtain rfl | rfl | hc | rfl := hc
  · decide
  · decide
  · have hrange := range_of_isNameChar ((tagChars ht).nameChars c hc)
    omega
  · decide

end Markup
end PageComposer
