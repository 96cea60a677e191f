/-
# Binary floating-point numbers

A finite number is `± mantissa · 2 ^ exponent` with one form for each value:

| number | mantissa | exponent |
| --- | --- | --- |
| normal | `2 ^ 52 ≤ mantissa < 2 ^ 53` | `-1074 ≤ exponent ≤ 971` |
| subnormal and zero | `mantissa < 2 ^ 52` | `-1074` |

so two finite numbers of one sign are the same number exactly when their fields agree. Results are
rounded to the nearest number, a tie to the even mantissa; beyond the largest number they are
infinite. All arithmetic is exact arithmetic on natural numbers followed by one rounding.
-/

namespace PageComposer
namespace Decimal

/-- Powers here are those of natural numbers, whatever else is in scope. -/
scoped instance (priority := high) naturalPower : Pow Nat Nat := ⟨Nat.pow⟩

/-- A binary floating-point number of 64 bits. -/
inductive Binary64 where
  | finite (negative : Bool) (mantissa : Nat) (exponent : Int)
  | infinite (negative : Bool)
  | nan
  deriving Repr, DecidableEq, Inhabited

namespace Binary64

/-- The number zero. -/
def zero : Binary64 := .finite false 0 (-1074)

/-- The quotient nearest to `num / den`, a tie to the even one. -/
def roundQuotient (num den : Nat) : Nat :=
  let q := num / den
  let r := num % den
  if 2 * r < den then q
  else if 2 * r > den then q + 1
  else if q % 2 == 0 then q else q + 1

/-- A nearest quotient is the quotient rounded down or the next number. -/
theorem roundQuotient_bounds (num den : Nat) :
    num / den ≤ roundQuotient num den ∧ roundQuotient num den ≤ num / den + 1 := by
  unfold roundQuotient
  simp only
  split
  · omega
  · split
    · omega
    · split <;> omega

/-- The fraction `num / den` divided by `2 ^ q`. -/
def scaleDown (num den : Nat) (q : Int) : Nat × Nat :=
  if 0 ≤ q then (num, den * 2 ^ q.toNat) else (num * 2 ^ (-q).toNat, den)

/-- A mantissa below `2 ^ 53` with its exponent, carried into the one form of the value. -/
def pack (negative : Bool) (mantissa : Nat) (exponent : Int) : Binary64 :=
  let (m, e) := if mantissa ≥ 2 ^ (53 : Nat) then (mantissa / 2, exponent + 1) else (mantissa, exponent)
  if e > 971 then .infinite negative else .finite negative m e

/-- The number nearest to `± num / den`. -/
def ofFraction (negative : Bool) (num den : Nat) : Binary64 :=
  if num == 0 || den == 0 then .finite negative 0 (-1074)
  else
    let guess : Int := max ((num.log2 : Int) - den.log2 - 53) (-1074)
    let (a, b) := scaleDown num den guess
    let q := if a / b ≥ 2 ^ (53 : Nat) then guess + 1 else guess
    let (a, b) := scaleDown num den q
    pack negative (roundQuotient a b) q

/-- The number nearest to `± digits · 10 ^ power`. The magnitude is read off the digits first, so
that a power of any size costs no more than one near the ends of the range. -/
def ofScientific (negative : Bool) (digits : Nat) (power : Int) : Binary64 :=
  if digits == 0 then .finite negative 0 (-1074)
  else
    let places : Int := (Nat.toDigits 10 digits).length
    if power + places > 310 then .infinite negative
    else if power + places < -330 then .finite negative 0 (-1074)
    else if 0 ≤ power then ofFraction negative (digits * 10 ^ power.toNat) 1
    else ofFraction negative digits (10 ^ (-power).toNat)

/-- The number nearest to a natural number. -/
def ofNat (n : Nat) : Binary64 := ofFraction false n 1

/-- Whether the sign is set. -/
def isNegative : Binary64 → Bool
  | .finite n .. => n
  | .infinite n => n
  | .nan => false

/-- The number with the other sign. -/
def neg : Binary64 → Binary64
  | .finite n m e => .finite (!n) m e
  | .infinite n => .infinite (!n)
  | .nan => .nan

/-- The magnitude of a finite number in units of `2 ^ -1074`. -/
def units (mantissa : Nat) (exponent : Int) : Nat :=
  mantissa * 2 ^ (exponent + 1074).toNat

/-- The number nearest to `± n · 2 ^ power`. -/
def ofUnits (negative : Bool) (n : Nat) (power : Int) : Binary64 :=
  if 0 ≤ power then ofFraction negative (n * 2 ^ power.toNat) 1
  else ofFraction negative n (2 ^ (-power).toNat)

/-- The product, rounded. -/
def mul : Binary64 → Binary64 → Binary64
  | .nan, _ => .nan
  | _, .nan => .nan
  | .infinite s, y => if y == .finite false 0 (-1074) || y == .finite true 0 (-1074) then .nan
    else .infinite (s != y.isNegative)
  | x, .infinite s => if x == .finite false 0 (-1074) || x == .finite true 0 (-1074) then .nan
    else .infinite (s != x.isNegative)
  | .finite s m e, .finite t n f => ofUnits (s != t) (m * n) (e + f)

/-- The sum, rounded. -/
def add : Binary64 → Binary64 → Binary64
  | .nan, _ => .nan
  | _, .nan => .nan
  | .infinite s, .infinite t => if s == t then .infinite s else .nan
  | .infinite s, _ => .infinite s
  | _, .infinite t => .infinite t
  | .finite s m e, .finite t n f =>
    let a : Int := if s then -(units m e : Int) else units m e
    let b : Int := if t then -(units n f : Int) else units n f
    if a + b == 0 then .finite (s && t) 0 (-1074)
    else ofUnits (decide (a + b < 0)) (a + b).natAbs (-1074)

/-- The integer that a finite number is, `none` if it has a fraction. -/
def toInt? : Binary64 → Option Int
  | .finite s m e =>
    let signed (n : Nat) : Int := if s then -(n : Int) else n
    if 0 ≤ e then some (signed (m * 2 ^ e.toNat))
    else if m % 2 ^ (-e).toNat == 0 then some (signed (m / 2 ^ (-e).toNat))
    else none
  | _ => none

/-- The integer part of a finite number, toward zero. -/
def truncate? : Binary64 → Option Int
  | .finite s m e =>
    let n := if 0 ≤ e then m * 2 ^ e.toNat else m / 2 ^ (-e).toNat
    some (if s then -(n : Int) else n)
  | _ => none

/-- A number with an integer value is its own integer part. -/
theorem truncate?_of_toInt? {x : Binary64} {n : Int} (h : x.toInt? = some n) :
    x.truncate? = some n := by
  cases x with
  | finite s m e =>
    simp only [toInt?] at h
    simp only [truncate?]
    split at h
    · rename_i he; simpa [he] using h
    · split at h
      · rename_i he _; simpa [he] using h
      · simp at h
  | infinite => simp [toInt?] at h
  | nan => simp [toInt?] at h

/-- Whether the number is below the integer `n`. -/
def isBelow (x : Binary64) (n : Int) : Bool :=
  match x with
  | .finite s m e =>
    let scaled : Int := (if s then -1 else 1) * (units m e : Int)
    decide (scaled < n * (2 ^ (1074 : Nat) : Nat))
  | .infinite s => s
  | .nan => false

end Binary64
end Decimal
end PageComposer
