import BomAssembly.Number.Binary64

/-!
# The text of a floating point number

The digits of a binary64 number are the fewest that round back to it; among those of one length the
nearest to the exact value is taken, and of two equally near the even one. The reals that round to
the number form an interval, with its ends when the significand is even.

The digits are written without an exponent when the point falls inside or near them and with one
otherwise. A number without a fraction keeps `.0`.
-/

namespace BomAssembly.Number

open Binary64

/-- A decimal significand and exponent: `digits · 10^exponent`. -/
structure Decimal where
  digits : Nat
  exponent : Int
  deriving DecidableEq

namespace Decimal

/-- Twice the distance bounds around a number: lower end, value and upper end, over one divisor. -/
def interval (x : Binary64) : Nat × Nat × Nat × Nat :=
  let wide := x.significand = Nat.pow 2 52 ∧ x.exponent > minExponent
  let unit := Nat.pow 2 x.exponent.toNat
  let den := Nat.pow 2 (-x.exponent).toNat
  let value := 4 * x.significand * unit
  (value - (if wide then unit else 2 * unit), value, value + 2 * unit, 4 * den)

/-- Whether `n / d` rounds to the number. -/
def roundsTo (x : Binary64) (n d : Nat) : Bool :=
  let (low, _, high, den) := interval x
  let even := x.significand % 2 = 0
  if even then low * d ≤ n * den && n * den ≤ high * d
  else low * d < n * den && n * den < high * d

/-- The multiple of `10^exponent` that is nearest to the number and rounds to it. -/
def onGrid (x : Binary64) (exponent : Int) : Option Decimal :=
  let (_, value, _, den) := interval x
  let up := Nat.pow 10 exponent.toNat
  let down := Nat.pow 10 (-exponent).toNat
  let n := value * down
  let d := den * up
  let q := n / d
  let r := n % d
  let reads (m : Nat) : Bool := roundsTo x (m * up) down
  let nearer := if 2 * r < d ∨ (2 * r = d ∧ q % 2 = 0) then [q, q + 1] else [q + 1, q]
  (nearer.find? reads).map fun m => ⟨m, exponent⟩

/-- The first grid, from coarse to fine, that holds a decimal which reads back. -/
def search (x : Binary64) : Nat → Int → Option Decimal
  | 0, _ => none
  | n + 1, exponent => (onGrid x exponent).orElse fun _ => search x n (exponent - 1)

/-- The number of decimal digits of a natural. -/
def width (n : Nat) : Nat := (Nat.toDigits 10 n).length

/-- The place of the leading digit: the greatest `k` with `10^k` at most the number. -/
def leading (x : Binary64) : Int :=
  let (a, b) := x.ratio
  let guess : Int := (width a : Int) - width b
  if a * Nat.pow 10 (-guess).toNat < b * Nat.pow 10 guess.toNat then guess - 1 else guess

/-- A decimal without zeros at its end. -/
def stripped : Nat → Decimal → Decimal
  | 0, d => d
  | n + 1, d =>
    if d.digits ≠ 0 ∧ d.digits % 10 = 0 then stripped n ⟨d.digits / 10, d.exponent + 1⟩ else d

/-- The shortest decimal of a number other than zero. -/
def shortest (x : Binary64) : Decimal :=
  stripped 20 ((search x 18 (leading x)).getD ⟨x.significand, x.exponent⟩)

end Decimal

/-! ## The text -/

/-- The decimal digits of a natural. -/
def digitsOf (n : Nat) : List Char := Nat.toDigits 10 n

/-- An integer in decimal. -/
def intText (i : Int) : List Char := if i < 0 then '-' :: digitsOf i.natAbs else digitsOf i.natAbs

/-- A decimal as text; up to sixteen places stand before the point and up to four zeros behind it. -/
def decimalText (d : Decimal) : List Char :=
  let ds := digitsOf d.digits
  let point : Int := ds.length + d.exponent
  if 0 ≤ d.exponent ∧ point ≤ 16 then
    ds ++ List.replicate d.exponent.toNat '0' ++ ['.', '0']
  else if 0 < point ∧ point ≤ 16 then
    ds.take point.toNat ++ ['.'] ++ ds.drop point.toNat
  else if -5 < point ∧ point ≤ 0 then
    ['0', '.'] ++ List.replicate (-point).toNat '0' ++ ds
  else
    match ds with
    | [c] => c :: 'e' :: intText (point - 1)
    | c :: cs => [c, '.'] ++ cs ++ ['e'] ++ intText (point - 1)
    | [] => []

/-- A binary64 number as text. -/
def floatText (x : Binary64) : List Char :=
  (if x.negative then ['-'] else []) ++
    (if x.isZero then ['0', '.', '0'] else decimalText (Decimal.shortest x))

end BomAssembly.Number
