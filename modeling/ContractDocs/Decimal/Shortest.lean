import ContractDocs.Decimal.Double

/-! The shortest decimal that reads back as a given double. Among the decimals of one
length the nearest is taken, and of two equally near ones the even. -/

namespace ContractDocs.Decimal

/-- Number of decimal digits. -/
def digitCount (n : Nat) : Nat :=
  (Nat.toDigits 10 n).length

namespace Magnitude

/-- The power of ten of the leading digit of a magnitude other than zero. -/
def leadingPower (m : Magnitude) : Int :=
  let (num, den) := m.ratio
  if den ≤ num then (digitCount (num / den) : Int) - 1
  else
    let len := digitCount (den / num)
    if den ≤ Nat.pow 10 (len - 1) * num then -((len : Int) - 1) else -(len : Int)

/-- The numbers that round to `m`, as their bounds in quarters of its last binary place. -/
def bounds (m : Magnitude) : Nat × Nat :=
  let narrow := m.mantissa = Nat.pow 2 52 ∧ -1074 < m.exponent
  (4 * m.mantissa - (if narrow then 1 else 2), 4 * m.mantissa + 2)

/-- Whether `digits * 10 ^ power` rounds to `m`. The bounds themselves do if the mantissa
is even. -/
def covers (m : Magnitude) (digits : Nat) (power : Int) : Bool :=
  let quarter := m.exponent - 2
  let value := digits * Nat.pow 10 power.toNat * Nat.pow 2 (-quarter).toNat
  let unit := Nat.pow 2 quarter.toNat * Nat.pow 10 (-power).toNat
  let (low, high) := m.bounds
  if m.mantissa % 2 = 0 then low * unit ≤ value && value ≤ high * unit
  else low * unit < value && value < high * unit

/-- The decimal with `count` digits that rounds to `m` and is nearest to it, if there is one. -/
def nearest? (m : Magnitude) (count : Nat) : Option (Nat × Int) :=
  let power := m.leadingPower - count + 1
  let (num, den) := m.ratio
  let n := num * Nat.pow 10 (-power).toNat
  let d := den * Nat.pow 10 power.toNat
  let below := n / d
  let preferred := roundDiv n d
  let other := if preferred = below then below + 1 else below
  if m.covers preferred power then some (preferred, power)
  else if m.covers other power then some (other, power)
  else none

/-- Removes zeros at the end of the digits; `fuel` bounds their number. -/
def dropZeros : Nat → Nat × Int → Nat × Int
  | 0, d => d
  | fuel + 1, (digits, power) =>
    if digits ≠ 0 ∧ digits % 10 = 0 then dropZeros fuel (digits / 10, power + 1)
    else (digits, power)

/-- Digits and power of ten of the shortest decimal that rounds to `m`. -/
def shortest (m : Magnitude) : Nat × Int :=
  if m.mantissa = 0 then (0, 0)
  else
    match (List.range 17).findSome? fun k => m.nearest? (k + 1) with
    | some d => dropZeros 17 d
    | none => (m.mantissa, m.exponent)

end Magnitude

end ContractDocs.Decimal
