import EndpointAudit.Decimal.Binary

namespace EndpointAudit.Decimal

/-- A positive value between the ends of its rounding interval, all over one denominator. -/
structure Interval where
  low : Nat
  value : Nat
  high : Nat
  denominator : Nat
  closed : Bool

/-- The rounding interval of `significand * 2 ^ exponent`, in quarters of the last binary place. -/
def Interval.of (significand : Nat) (exponent : Int) (lowest : Bool) : Interval :=
  let scale := Nat.pow 2 exponent.toNat
  { low := (4 * significand - (if lowest then 1 else 2)) * scale
    value := 4 * significand * scale
    high := (4 * significand + 2) * scale
    denominator := 4 * Nat.pow 2 (-exponent).toNat
    closed := significand % 2 == 0 }

/-- Whether `n * step / unit` reads back as the value. -/
def Interval.holds (i : Interval) (n step unit : Nat) : Bool :=
  let x := n * step * i.denominator
  if i.closed then i.low * unit ≤ x && x ≤ i.high * unit
  else i.low * unit < x && x < i.high * unit

structure Digits where
  digits : Nat
  exponent : Int
deriving Repr, DecidableEq

/-- The neighbour of the value on the grid of multiples of `step / unit` that reads back, the
nearer one if both do; of two equally near the even one. -/
def Interval.onGrid? (i : Interval) (step unit : Nat) : Option Nat :=
  let below := i.value * unit / (i.denominator * step)
  let above := below + 1
  match i.holds below step unit && below != 0,i.holds above step unit with
  | false,false => none
  | true,false => some below
  | false,true => some above
  | true,true =>
    let toBelow := i.value * unit - below * step * i.denominator
    let toAbove := above * step * i.denominator - i.value * unit
    if toBelow < toAbove then some below
    else if toAbove < toBelow then some above
    else if below % 2 = 0 then some below else some above

def digitCount (n : Nat) : Nat :=
  (Nat.toDigits 10 n).length

/-- The exponent `e` with `10 ^ e ≤ numerator / denominator < 10 ^ (e + 1)`. -/
def leadingExponent (numerator denominator : Nat) : Int :=
  if denominator ≤ numerator then (digitCount (numerator / denominator) - 1 : Nat)
  else
    let guess := digitCount denominator - digitCount numerator
    if denominator ≤ numerator * Nat.pow 10 guess then -guess else -(guess + 1 : Nat)

/-- Tries grids from the coarsest to the finest. Seventeen digits always read back. -/
def Interval.search (i : Interval) (leading : Int) : Nat → Nat → Digits
  | 0,_ => ⟨0,0⟩
  | fuel + 1,count =>
    let place : Int := leading - (count - 1 : Nat)
    match i.onGrid? (Nat.pow 10 place.toNat) (Nat.pow 10 (-place).toNat) with
    | some n => ⟨n,place⟩
    | none => i.search leading fuel (count + 1)

def Digits.stripZeros (d : Digits) : Nat → Digits
  | 0 => d
  | fuel + 1 =>
    if d.digits ≠ 0 ∧ d.digits % 10 = 0 then stripZeros ⟨d.digits / 10,d.exponent + 1⟩ fuel else d

def shortest (significand : Nat) (exponent : Int) (lowest : Bool) : Digits :=
  if significand = 0 then ⟨0,0⟩
  else
    let i := Interval.of significand exponent lowest
    (i.search (leadingExponent i.value i.denominator) 17 1).stripZeros 17

end EndpointAudit.Decimal
