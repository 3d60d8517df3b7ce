import BomAssembly.Number.Binary64

/-!
# Decimal fractions

A decimal fraction is an optional sign, digits with at most one point among or beside them, and an
optional exponent of ten. It reads as the nearest binary64 number.
-/

namespace BomAssembly.Number

/-- The number that a row of digits stands for, in a base. -/
def ofDigits (base : Nat) (value : Char → Nat) (ds : List Char) : Nat :=
  ds.foldl (fun n c => n * base + value c) 0

/-- The value of a decimal digit. -/
def decimalValue (c : Char) : Nat := c.toNat - 48

/-- A natural number in decimal digits; a plus sign may stand in front. -/
def natural? (cs : List Char) : Option Nat :=
  let ds := match cs with | '+' :: rest => rest | _ => cs
  if ds.isEmpty || !ds.all Char.isDigit then none else some (ofDigits 10 decimalValue ds)

/-- A natural number below a bound. -/
def naturalBelow? (bound : Nat) (cs : List Char) : Option Nat :=
  (natural? cs).filter fun n => n < bound

namespace Binary64

/-- A significand times a power of ten; nothing when it is beyond the greatest number. -/
def ofDecimal (negative : Bool) (f : Nat) (exponent : Int) : Option Binary64 :=
  if f = 0 then some (zero negative)
  else
    let size : Int := ((Nat.toDigits 10 f).length : Int) + exponent
    if size > 400 then none
    else if size < -400 then some (zero negative)
    else if 0 ≤ exponent then nearest negative (f * Nat.pow 10 exponent.toNat) 1
    else nearest negative f (Nat.pow 10 (-exponent).toNat)

/-- A decimal fraction; nothing when the text is none or its number is too great. -/
def ofText? (cs : List Char) : Option Binary64 :=
  let (negative, cs) :=
    match cs with
    | '-' :: rest => (true, rest)
    | '+' :: rest => (false, rest)
    | _ => (false, cs)
  let whole := cs.takeWhile Char.isDigit
  let rest := cs.drop whole.length
  let (fraction, rest) :=
    match rest with
    | '.' :: more => (more.takeWhile Char.isDigit, more.dropWhile Char.isDigit)
    | _ => ([], rest)
  let exponent : Option Int :=
    match rest with
    | [] => some 0
    | e :: more =>
      if e = 'e' ∨ e = 'E' then
        match more with
        | '-' :: ds => if ds.head? = some '+' then none else (natural? ds).map fun n => -(n : Int)
        | '+' :: ds => if ds.head? = some '+' then none else (natural? ds).map fun n => (n : Int)
        | ds => (natural? ds).map fun n => (n : Int)
      else none
  if whole.isEmpty && fraction.isEmpty then none
  else
    exponent.bind fun e =>
      ofDecimal negative (ofDigits 10 decimalValue (whole ++ fraction)) (e - fraction.length)

end Binary64

end BomAssembly.Number
