/-
# Classes of characters

| class | members |
| --- | --- |
| blank | the 29 separators of running text: controls 9–13 and 28–31, the space, and twenty more |
| blank around a numeral | the blanks without the four information separators 28–31 |
| markup blank | space, tab, line feed, form feed, carriage return |
| word | ASCII letters, digits and the underscore; letters and numbers of every script |
| decimal digit | ten digits of each script that counts in tens |
| printable | what a quoted text shows as it is |

Everything below U+0080 is decided by comparison; beyond it the tables of
`PageComposer.Text.ClassTable` decide.
-/

import PageComposer.Text.ClassTable

namespace PageComposer
namespace Text

/-- Whether `n` lies in one of the closed `ranges`. -/
def inRanges (ranges : List (Nat × Nat)) (n : Nat) : Bool :=
  ranges.any fun r => r.1 ≤ n && n ≤ r.2

/-- The blanks that surround words of running text. -/
def isBlank (c : Char) : Bool :=
  let n := c.toNat
  (9 ≤ n && n ≤ 13) || (28 ≤ n && n ≤ 32) || n == 0x85 || n == 0xa0 || n == 0x1680 ||
    (0x2000 ≤ n && n ≤ 0x200a) || n == 0x2028 || n == 0x2029 || n == 0x202f || n == 0x205f ||
    n == 0x3000

/-- Core's white space is blank. -/
theorem isBlank_of_isWhitespace {c : Char} (h : c.isWhitespace = true) : isBlank c = true := by
  simp only [Char.isWhitespace, Bool.or_eq_true, decide_eq_true_eq] at h
  rcases h with ((rfl | rfl) | rfl) | rfl <;> decide

/-- The blanks that may surround a numeral: the information separators do not. -/
def isNumeralBlank (c : Char) : Bool :=
  isBlank c && !(28 ≤ c.toNat && c.toNat ≤ 31)

/-- The blanks of markup. -/
def isMarkupBlank (c : Char) : Bool :=
  c == ' ' || c == '\n' || c == '\t' || c == '\x0c' || c == '\r'

/-- An ASCII letter. -/
def isAsciiLetter (c : Char) : Bool :=
  ('a' ≤ c && c ≤ 'z') || ('A' ≤ c && c ≤ 'Z')

/-- An ASCII digit. -/
def isAsciiDigit (c : Char) : Bool :=
  '0' ≤ c && c ≤ '9'

/-- An ASCII letter or digit. -/
def isAsciiAlnum (c : Char) : Bool :=
  isAsciiLetter c || isAsciiDigit c

/-- A letter, a number or the underscore. -/
def isWord (c : Char) : Bool :=
  if c.toNat < 128 then isAsciiAlnum c || c == '_' else inRanges wordRanges c.toNat

/-- The value of a decimal digit of any script. -/
def digitValue? (c : Char) : Option Nat :=
  if c.toNat < 128 then
    if isAsciiDigit c then some (c.toNat - 48) else none
  else
    (digitZeros.find? fun z => z ≤ c.toNat && c.toNat ≤ z + 9).map (c.toNat - ·)

/-- A decimal digit of any script. -/
def isDigit (c : Char) : Bool :=
  (digitValue? c).isSome

theorem digitValue?_le {c : Char} {d : Nat} (h : digitValue? c = some d) : d ≤ 9 := by
  unfold digitValue? at h
  split at h
  · split at h
    · rename_i hd
      simp only [isAsciiDigit, Bool.and_eq_true, decide_eq_true_eq] at hd
      have h9 : c.toNat ≤ '9'.toNat := hd.2
      have : '9'.toNat = 57 := rfl
      obtain rfl := Option.some.inj h
      omega
    · simp at h
  · obtain ⟨z, hz, rfl⟩ := Option.map_eq_some_iff.1 h
    have := List.find?_some hz
    simp only [Bool.and_eq_true, decide_eq_true_eq] at this
    omega

/-- The value of a hexadecimal digit. -/
def hexValue? (c : Char) : Option Nat :=
  if isAsciiDigit c then some (c.toNat - 48)
  else if 'a' ≤ c && c ≤ 'f' then some (c.toNat - 87)
  else if 'A' ≤ c && c ≤ 'F' then some (c.toNat - 55)
  else none

/-- A hexadecimal digit. -/
def isHexDigit (c : Char) : Bool :=
  (hexValue? c).isSome

/-- What a quoted text shows as it is. -/
def isPrintable (c : Char) : Bool :=
  if c.toNat < 128 then 32 ≤ c.toNat && c.toNat ≤ 126
  else !inRanges unprintableRanges c.toNat

/-- Whether a character stands in a text. -/
@[irreducible] def holds (s : String) (c : Char) : Bool :=
  s.toList.contains c

/-- What stands between the separators in `cs`. -/
def pieces (separator : Char) : List Char → List (List Char)
  | [] => [[]]
  | c :: rest =>
    if c == separator then [] :: pieces separator rest
    else
      match pieces separator rest with
      | [] => [[c]]
      | piece :: more => (c :: piece) :: more

theorem pieces_ne_nil (separator : Char) (cs : List Char) : pieces separator cs ≠ [] := by
  cases cs with
  | nil => simp [pieces]
  | cons c rest =>
    unfold pieces
    split
    · simp
    · split <;> simp

/-- No piece holds the separator. -/
theorem not_mem_of_mem_pieces {separator : Char} {cs piece : List Char}
    (h : piece ∈ pieces separator cs) : separator ∉ piece := by
  induction cs generalizing piece with
  | nil => simp_all [pieces]
  | cons c rest ih =>
    unfold pieces at h
    split at h
    · rcases List.mem_cons.1 h with rfl | h
      · simp
      · exact ih h
    · rename_i hc
      have hne : separator ≠ c := fun he => hc (beq_iff_eq.2 he.symm)
      split at h
      · simpa [List.mem_singleton.1 h] using hne
      · rename_i first more hp
        rcases List.mem_cons.1 h with rfl | h
        · simpa [hne] using ih (hp ▸ List.mem_cons_self ..)
        · exact ih (hp ▸ List.mem_cons_of_mem _ h)

/-- What stands between the separators in `s`. -/
def split (separator : Char) (s : String) : List String :=
  (pieces separator s.toList).map String.ofList

/-- `cs` without the characters of a class at either end. -/
def trimOf (p : Char → Bool) (cs : List Char) : List Char :=
  ((cs.dropWhile p).reverse.dropWhile p).reverse

/-- `cs` without the blanks at either end. -/
def trimmed (cs : List Char) : List Char :=
  trimOf isBlank cs

/-- `s` without the blanks at either end. -/
def trim (s : String) : String :=
  String.ofList (trimmed s.toList)

@[simp] theorem trimOf_nil (p : Char → Bool) : trimOf p [] = [] := rfl

/-- A text that begins and ends outside the class keeps everything. -/
theorem trimOf_eq_self {p : Char → Bool} {cs : List Char}
    (hd : ∀ c ∈ cs.head?, p c = false) (hl : ∀ c ∈ cs.getLast?, p c = false) :
    trimOf p cs = cs := by
  have drop_self : ∀ {xs : List Char}, (∀ c ∈ xs.head?, p c = false) → xs.dropWhile p = xs := by
    intro xs h
    cases xs with
    | nil => rfl
    | cons x t => simp [List.dropWhile, h x (by simp)]
  unfold trimOf
  rw [drop_self hd, drop_self (by simpa [List.head?_reverse] using hl), List.reverse_reverse]

end Text
end PageComposer
