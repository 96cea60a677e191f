/-
# The upper controls of windows-1252

The code page agrees with Latin-1 except for 0x80 to 0x9f, where it has 27 graphic characters and
five gaps.
-/

namespace PageComposer
namespace Text

/-- The code points of 0x80 to 0x9f, zero for a gap. -/
def windowsControls : List Nat :=
  [0x20ac, 0, 0x201a, 0x0192, 0x201e, 0x2026, 0x2020, 0x2021,
   0x02c6, 0x2030, 0x0160, 0x2039, 0x0152, 0, 0x017d, 0,
   0, 0x2018, 0x2019, 0x201c, 0x201d, 0x2022, 0x2013, 0x2014,
   0x02dc, 0x2122, 0x0161, 0x203a, 0x0153, 0, 0x017e, 0x0178]

/-- The code point that a byte of the upper controls stands for. -/
def windowsControl? (n : Nat) : Option Nat :=
  if n < 0x80 || n > 0x9f then none
  else
    match windowsControls[n - 0x80]? with
    | some 0 => none
    | other => other

/-- The byte of the upper controls that stands for a code point. -/
def windowsByte? (point : Nat) : Option Nat :=
  if point == 0 then none
  else (windowsControls.findIdx? (· == point)).map (· + 0x80)

end Text
end PageComposer
