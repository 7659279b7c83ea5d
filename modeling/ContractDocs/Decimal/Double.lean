/-! Finite double precision numbers in exact arithmetic. A magnitude is
`mantissa * 2 ^ exponent`; results that are not representable are rounded to the
nearest magnitude, and a tie goes to the even mantissa. -/

namespace ContractDocs.Decimal

structure Magnitude where
  mantissa : Nat
  exponent : Int
deriving DecidableEq, Repr, Inhabited

structure Double where
  negative : Bool
  magnitude : Magnitude
deriving DecidableEq, Repr, Inhabited

/-- Nearest natural number to `num / den`; a half goes to the even neighbour. -/
def roundDiv (num den : Nat) : Nat :=
  let q := num / den
  let r := num % den
  if 2 * r < den then q
  else if den < 2 * r then q + 1
  else if q % 2 = 0 then q
  else q + 1

/-- `num / den` in units of `2 ^ exponent`, as numerator and denominator. -/
def inUnits (num den : Nat) (exponent : Int) : Nat × Nat :=
  if 0 ≤ exponent then (num, den * Nat.pow 2 exponent.toNat)
  else (num * Nat.pow 2 (-exponent).toNat, den)

namespace Magnitude

def zero : Magnitude := ⟨0, -1074⟩

/-- The magnitude nearest to `num / den`, and `none` if that is beyond the largest one. -/
def ofRatio? (num den : Nat) : Option Magnitude :=
  if num = 0 then some zero
  else
    let guess : Int := (num.log2 : Int) - den.log2 - 52
    let (n, d) := inUnits num den guess
    let exponent := max (if n / d < Nat.pow 2 52 then guess - 1 else guess) (-1074)
    let (n, d) := inUnits num den exponent
    let mantissa := roundDiv n d
    let rounded : Magnitude :=
      if mantissa = Nat.pow 2 53 then ⟨Nat.pow 2 52, exponent + 1⟩ else ⟨mantissa, exponent⟩
    if 971 < rounded.exponent then none else some rounded

/-- A magnitude as a numerator and a denominator. -/
def ratio (m : Magnitude) : Nat × Nat :=
  if 0 ≤ m.exponent then (m.mantissa * Nat.pow 2 m.exponent.toNat, 1)
  else (m.mantissa, Nat.pow 2 (-m.exponent).toNat)

def mul? (a b : Magnitude) : Option Magnitude :=
  ofRatio? (a.ratio.1 * b.ratio.1) (a.ratio.2 * b.ratio.2)

def div? (a b : Magnitude) : Option Magnitude :=
  ofRatio? (a.ratio.1 * b.ratio.2) (a.ratio.2 * b.ratio.1)

/-- The magnitude nearest to `10 ^ k`, for `k` up to 308. -/
def tenTo? (k : Nat) : Option Magnitude :=
  ofRatio? (Nat.pow 10 k) 1

/-- `m * 10 ^ k` with a rounding after each step: one multiplication or division by a
power of ten up to `10 ^ 308`, and divisions by `10 ^ 308` before it if `k` is below that. -/
def scale? (m : Magnitude) (k : Int) : Option Magnitude :=
  if 308 < k then
    if m.mantissa = 0 then some m else none
  else if 0 ≤ k then do m.mul? (← tenTo? k.toNat)
  else if -308 ≤ k then do m.div? (← tenTo? (-k).toNat)
  else if m.mantissa = 0 then some m
  else do scale? (← m.div? (← tenTo? 308)) (k + 308)
termination_by (-k).toNat
decreasing_by omega

end Magnitude

end ContractDocs.Decimal
