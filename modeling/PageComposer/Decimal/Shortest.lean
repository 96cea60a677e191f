/-
# The shortest decimal text of a binary number

A finite number stands for every real number that rounds to it. Its text has the fewest digits of
all decimals in that interval, and of those with as few the one nearest to the number.

| part | rule |
| --- | --- |
| interval | half a unit to either side, a quarter below a power of two; the ends belong to it iff the mantissa is even |
| candidates | for 1, 2, … 17 digits the two neighbours of the number on the grid of that many digits |
| positional | decimal exponent from -4 to 15, with `.0` on an integer |
| scientific | otherwise: `d.ddde±xx`, at least two digits of exponent |
-/

import PageComposer.Decimal.Binary64

namespace PageComposer
namespace Decimal

/-- A positive decimal `digits · 10 ^ power`. -/
structure Scientific where
  /-- The digits as one number. -/
  digits : Nat
  /-- The power of ten of the last digit. -/
  power : Int
  deriving Repr, DecidableEq, Inhabited

/-- The reals that round to `mantissa · 2 ^ exponent`, in quarters of that unit. -/
structure Rounding where
  /-- The number itself. -/
  value : Nat
  /-- The lower end. -/
  low : Nat
  /-- The upper end. -/
  high : Nat
  /-- Whether the ends belong to the interval. -/
  closed : Bool
  /-- The power of two of one unit. -/
  power : Int

/-- The interval of a finite number. -/
def Rounding.of (mantissa : Nat) (exponent : Int) : Rounding where
  value := 4 * mantissa
  low := if mantissa == 2 ^ (52 : Nat) && exponent > -1074 then 4 * mantissa - 1 else 4 * mantissa - 2
  high := 4 * mantissa + 2
  closed := mantissa % 2 == 0
  power := exponent - 2

theorem Rounding.low_le_value (m : Nat) (e : Int) :
    (Rounding.of m e).low ≤ (Rounding.of m e).value := by
  simp only [Rounding.of]; split <;> omega

theorem Rounding.value_le_high (m : Nat) (e : Int) :
    (Rounding.of m e).value ≤ (Rounding.of m e).high := by
  simp only [Rounding.of]; omega

/-- `x · 2 ^ power₂` and `d · 10 ^ power₁₀` brought to one common unit. -/
def commonScale (x : Nat) (power₂ : Int) (d : Nat) (power₁₀ : Int) : Nat × Nat :=
  (x * 2 ^ power₂.toNat * 10 ^ (-power₁₀).toNat,
   d * 10 ^ power₁₀.toNat * 2 ^ (-power₂).toNat)

/-- Whether a decimal lies in the interval. -/
def Rounding.contains (r : Rounding) (s : Scientific) : Bool :=
  let (lo, d) := commonScale r.low r.power s.digits s.power
  let (hi, _) := commonScale r.high r.power s.digits s.power
  if r.closed then lo ≤ d && d ≤ hi else lo < d && d < hi

/-- How far a decimal is from the number, in the common unit of its power of ten. -/
def Rounding.distance (r : Rounding) (s : Scientific) : Nat :=
  let (v, d) := commonScale r.value r.power s.digits s.power
  (v - d) + (d - v)

/-- The largest power of ten not above the number, as an exponent. -/
def Rounding.magnitude (r : Rounding) : Int :=
  let (v, _) := commonScale r.value r.power 1 0
  let (_, one) := commonScale 1 r.power 1 0
  if one ≤ v then ((Nat.toDigits 10 (v / one)).length : Int) - 1
  else
    -- the least `k` with `one ≤ v · 10 ^ k`, found from the lengths of the two numbers
    let k := (Nat.toDigits 10 (one / v)).length
    if one ≤ v * 10 ^ (k - 1) then -((k : Int) - 1) else -(k : Int)

/-- The nearer of the two neighbours on the grid `10 ^ power` that lie in the interval. -/
def Rounding.onGrid (r : Rounding) (power : Int) : Option Scientific :=
  let (v, unit) := commonScale r.value r.power 1 power
  let below : Scientific := ⟨v / unit, power⟩
  let above : Scientific := ⟨v / unit + 1, power⟩
  match r.contains below && below.digits != 0, r.contains above with
  | true, true =>
    if r.distance below < r.distance above then some below
    else if r.distance above < r.distance below then some above
    else some (if below.digits % 2 == 0 then below else above)
  | true, false => some below
  | false, true => some above
  | false, false => none

/-- The first grid with a hit, from `count` digits on; at most `fuel` grids are tried. -/
def Rounding.search (r : Rounding) (count : Nat) : Nat → Scientific
  | 0 => ⟨r.value, r.power⟩
  | fuel + 1 =>
    match r.onGrid (r.magnitude - count + 1) with
    | some s => s
    | none => r.search (count + 1) fuel

/-- Trailing zeros of the digits move into the power; at most `fuel` of them. -/
def Scientific.normalize (s : Scientific) : Nat → Scientific
  | 0 => s
  | fuel + 1 =>
    if s.digits != 0 && s.digits % 10 == 0 then
      Scientific.normalize ⟨s.digits / 10, s.power + 1⟩ fuel
    else s

/-- The shortest decimal of a finite number other than zero. -/
def shortest (mantissa : Nat) (exponent : Int) : Scientific :=
  ((Rounding.of mantissa exponent).search 1 17).normalize 20

/-- A decimal in positional notation if its exponent is from -4 to 15, else in scientific. -/
def Scientific.text (s : Scientific) : String :=
  let ds := Nat.toDigits 10 s.digits
  let point : Int := ds.length + s.power
  if -4 < point && point ≤ 16 then
    if point ≤ 0 then
      String.ofList ("0.".toList ++ List.replicate (-point).toNat '0' ++ ds)
    else if point ≥ ds.length then
      String.ofList (ds ++ List.replicate (point.toNat - ds.length) '0' ++ ".0".toList)
    else
      String.ofList (ds.take point.toNat ++ '.' :: ds.drop point.toNat)
  else
    let e := point - 1
    let es := Nat.toDigits 10 e.natAbs
    let fraction := match ds.drop 1 with
      | [] => []
      | r => '.' :: r
    String.ofList (ds.take 1 ++ fraction ++ ['e', if e < 0 then '-' else '+'] ++
      (if es.length < 2 then '0' :: es else es))

/-- The text of a number. -/
def Binary64.text : Binary64 → String
  | .nan => "nan"
  | .infinite s => if s then "-inf" else "inf"
  | .finite s m e =>
    let body := if m == 0 then "0.0" else (shortest m e).text
    if s then "-" ++ body else body

end Decimal
end PageComposer
