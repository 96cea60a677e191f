/-
# Small letters

`lower` writes a text in small letters. Each letter has its own small form, with two rules beside
the table: the dotted capital I becomes an i with a dot above, and the capital sigma becomes the
final form where a word ends, that is after a letter with case and before none, looking past the
characters that case rules ignore.
-/

import PageComposer.Text.Class
import PageComposer.Text.CaseTable

namespace PageComposer
namespace Text

/-- The small form of the letters of a run, `none` for any other code point. -/
def CaseRun.lower? (r : CaseRun) (n : Nat) : Option Nat :=
  if r.first ≤ n && n ≤ r.last && (n - r.first) % r.step == 0 then
    some (Int.toNat (n + r.shift))
  else none

/-- The small form of one letter on its own. -/
def lowerChar (c : Char) : List Char :=
  let n := c.toNat
  if n < 128 then
    if 65 ≤ n && n ≤ 90 then [Char.ofNat (n + 32)] else [c]
  else if n == 0x130 then ['i', Char.ofNat 0x307]
  else
    match lowerRuns.findSome? (·.lower? n) with
    | some m => [Char.ofNat m]
    | none => [c]

/-- The capital sigma. -/
def capitalSigma : Char := Char.ofNat 0x3a3

/-- Whether a letter with case follows, past the characters that case rules ignore. -/
def startsCased (cs : List Char) : Bool :=
  match cs.dropWhile fun c => inRanges caseIgnorableRanges c.toNat with
  | c :: _ => inRanges casedRanges c.toNat
  | [] => false

/-- Small letters for a text that holds a capital sigma; `cased` tells whether the last character
that case rules do not ignore was a letter with case. -/
def lowerWithSigma (cased : Bool) : List Char → List Char
  | [] => []
  | c :: rest =>
    let here :=
      if c == capitalSigma then
        [Char.ofNat (if cased && !startsCased rest then 0x3c2 else 0x3c3)]
      else lowerChar c
    let cased' :=
      if inRanges caseIgnorableRanges c.toNat then cased else inRanges casedRanges c.toNat
    here ++ lowerWithSigma cased' rest

/-- The characters of a text in small letters. -/
def lowered (cs : List Char) : List Char :=
  if cs.contains capitalSigma then lowerWithSigma false cs else cs.flatMap lowerChar

/-- A text in small letters. -/
def lower (s : String) : String :=
  String.ofList (lowered s.toList)

/-- The capitals of characters beyond ASCII whose capitals are ASCII letters. -/
def asciiCapitals : List (Nat × String) :=
  [(0xdf, "SS"), (0x131, "I"), (0x17f, "S"), (0xfb00, "FF"), (0xfb01, "FI"), (0xfb02, "FL"),
    (0xfb03, "FFI"), (0xfb04, "FFL"), (0xfb05, "ST"), (0xfb06, "ST")]

/-- A text in capital letters as far as those are ASCII; other characters stay. That is enough to
compare it with ASCII words. -/
def upperAscii (s : String) : String :=
  String.ofList <| s.toList.flatMap fun c =>
    if 'a' ≤ c && c ≤ 'z' then [Char.ofNat (c.toNat - 32)]
    else ((asciiCapitals.lookup c.toNat).map String.toList).getD [c]

/-- Below U+0080 only the capitals change. -/
theorem lowerChar_eq_self {c : Char} (h : c.toNat < 128) (hu : ¬ (65 ≤ c.toNat ∧ c.toNat ≤ 90)) :
    lowerChar c = [c] := by
  simp only [lowerChar, h, if_true]
  rw [if_neg]
  simpa using hu

end Text
end PageComposer
