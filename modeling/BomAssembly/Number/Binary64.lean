/-!
# Binary floating point

A finite number in binary64 is a sign, a significand `f` and an exponent `e`, standing for `f · 2^e`:

* `f < 2^53` and `-1074 ≤ e ≤ 971`;
* `f ≥ 2^52` unless `e = -1074`, so that every number but zero has one form, and zero has two signs.

`nearest` rounds a quotient of naturals to such a number, ties to the even significand, in exact
arithmetic. Products and quotients are the exact ones, rounded once.
-/

namespace BomAssembly.Number

/-- A finite binary64 number. -/
structure Binary64 where
  negative : Bool
  significand : Nat
  exponent : Int
  deriving DecidableEq, Inhabited

namespace Binary64

/-- The least exponent. -/
def minExponent : Int := -1074

/-- The greatest exponent. -/
def maxExponent : Int := 971

/-- Zero with a sign. -/
def zero (negative : Bool) : Binary64 := ⟨negative, 0, minExponent⟩

/-- Whether this is zero of either sign. -/
def isZero (x : Binary64) : Bool := x.significand == 0

/-- The quotient and remainder of `num / den / 2^e`, and the divisor they belong to. -/
def scaled (num den : Nat) (e : Int) : Nat × Nat × Nat :=
  let n := num * Nat.pow 2 (-e).toNat
  let d := den * Nat.pow 2 e.toNat
  (n / d, n % d, d)

/-- Round a quotient up when the remainder is past half, or at half when that makes it even. -/
def roundUpIf (q r d : Nat) : Nat :=
  if 2 * r > d ∨ (2 * r = d ∧ q % 2 = 1) then q + 1 else q

/-- The number nearest to `num / den`, or nothing when that is beyond the greatest one. -/
def nearest (negative : Bool) (num den : Nat) : Option Binary64 :=
  if num = 0 then some (zero negative)
  else
    let guess : Int := (num.log2 : Int) - den.log2 - 52
    let exact := if (scaled num den guess).1 < Nat.pow 2 52 then guess - 1 else guess
    let e := max exact minExponent
    let (q, r, d) := scaled num den e
    let f := roundUpIf q r d
    let (f, e) := if f = Nat.pow 2 53 then (Nat.pow 2 52, e + 1) else (f, e)
    if e > maxExponent then none else some ⟨negative, f, e⟩

/-- The magnitude as a quotient of naturals. -/
def ratio (x : Binary64) : Nat × Nat :=
  (x.significand * Nat.pow 2 x.exponent.toNat, Nat.pow 2 (-x.exponent).toNat)

/-- The number nearest to a natural. -/
def ofNat (n : Nat) : Option Binary64 := nearest false n 1

/-- The number nearest to a power of ten. -/
def powerOfTen (k : Nat) : Option Binary64 := nearest false (Nat.pow 10 k) 1

/-- The magnitude of a product, rounded. -/
def mul (x y : Binary64) : Option Binary64 :=
  let (a, b) := x.ratio
  let (c, d) := y.ratio
  nearest x.negative (a * c) (b * d)

/-- The magnitude of a quotient, rounded. -/
def div (x y : Binary64) : Option Binary64 :=
  let (a, b) := x.ratio
  let (c, d) := y.ratio
  nearest x.negative (a * d) (b * c)

/-- The same magnitude with a sign. -/
def withSign (negative : Bool) (x : Binary64) : Binary64 := { x with negative }

end Binary64

end BomAssembly.Number
