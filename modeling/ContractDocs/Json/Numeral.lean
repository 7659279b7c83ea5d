import ContractDocs.Json.Value

/-! Numerals and the numbers they stand for. An integer that fits into 64 bits is kept
exactly. Every other numeral is a double, computed from its first digits, as many as fit
into 64 bits, and a power of ten. -/

namespace ContractDocs.Json

/-- A numeral as written. Digits are given as numbers; the sign of the exponent is
`true` for a minus. -/
structure Numeral where
  negative : Bool
  whole : List Nat
  fraction : List Nat
  exponent : Option (Bool × List Nat)
  integral : Bool
deriving Repr

namespace Numeral

/-- Appends digits to a significand while it fits into 64 bits, and gives the digits
that are left. -/
def absorb (significand : Nat) : List Nat → Nat × List Nat
  | [] => (significand, [])
  | d :: rest =>
    if significand * 10 + d < Nat.pow 2 64 then absorb (significand * 10 + d) rest
    else (significand, d :: rest)

def ofDigits (digits : List Nat) : Nat :=
  digits.foldl (fun n d => n * 10 + d) 0

def double? (negative : Bool) (significand : Nat) (power : Int) : Option Json := do
  let m ← Decimal.Magnitude.ofRatio? significand 1
  return double ⟨negative, ← m.scale? power⟩

/-- The value of a numeral with a fraction, an exponent or more than 64 bits. Digits of
the whole part that no longer fit raise the power of ten, digits of the fraction that no
longer fit are dropped. An exponent beyond 32 bits is infinite. -/
def inexact? (n : Numeral) (significand : Nat) (left : List Nat) : Option Json :=
  let (significand, dropped) := absorb significand n.fraction
  let power : Int := (left.length : Int) - (n.fraction.length - dropped.length : Nat)
  match n.exponent with
  | none => double? n.negative significand power
  | some (minus, digits) =>
    let exponent := ofDigits digits
    if exponent < Nat.pow 2 31 then
      double? n.negative significand (if minus then power - exponent else power + exponent)
    else if significand = 0 ∨ minus then some (double ⟨n.negative, .zero⟩)
    else none

/-- The value of a numeral, and `none` if it is beyond the largest double. -/
def value? (n : Numeral) : Option Json :=
  let (significand, left) := absorb 0 n.whole
  if n.integral ∧ left = [] then
    if !n.negative then some (int significand)
    else if significand = 0 ∨ Nat.pow 2 63 < significand then double? true significand 0
    else some (int (-significand))
  else n.inexact? significand left

end Numeral

end ContractDocs.Json
