import EndpointAudit.Decimal.Shortest

namespace EndpointAudit.Decimal

/-- A layout of decimal digits. Positional notation is used while the exponent of the first digit
lies in the given range, and always if there is none. -/
structure Layout where
  positional : Option (Int × Int)
  /-- Whole numbers in positional notation end in a point and a zero. -/
  pointZero : Bool
  nan : String
  infinity : String
  negativeInfinity : String

def zeros (n : Nat) : String :=
  String.ofList (List.replicate n '0')

/-- Positional notation of the digits `ds` whose last one stands for `10 ^ exponent`. -/
def positionalText (ds : List Char) (exponent : Int) (pointZero : Bool) : String :=
  if 0 ≤ exponent then
    String.ofList ds ++ zeros exponent.toNat ++ (if pointZero then ".0" else "")
  else
    let places := (-exponent).toNat
    if places < ds.length then
      String.ofList (ds.take (ds.length - places)) ++ "." ++
        String.ofList (ds.drop (ds.length - places))
    else "0." ++ zeros (places - ds.length) ++ String.ofList ds

/-- Scientific notation: one digit, the others after a point, and a signed exponent. -/
def scientificText (ds : List Char) (leading : Int) : String :=
  let (first,others) := (ds.take 1,ds.drop 1)
  String.ofList first ++ (if others.isEmpty then "" else "." ++ String.ofList others) ++ "e" ++
    (if leading < 0 then "-" else "+") ++ toString leading.natAbs

def Layout.digitsText (l : Layout) (d : Digits) : String :=
  let ds := Nat.toDigits 10 d.digits
  let exponent := if d.digits = 0 then 0 else d.exponent
  let leading := exponent + (ds.length - 1 : Nat)
  match l.positional with
  | none => positionalText ds exponent l.pointZero
  | some (least,most) =>
    if least ≤ leading ∧ leading ≤ most then positionalText ds exponent l.pointZero
    else scientificText ds leading

def Layout.text (l : Layout) : Binary → String
  | .nan => l.nan
  | .infinite negative => if negative then l.negativeInfinity else l.infinity
  | .finite negative significand exponent lowest =>
    (if negative then "-" else "") ++ l.digitsText (shortest significand exponent lowest)

/-- The quotient to the nearest whole number, a half going to the even neighbour. -/
def roundDiv (numerator denominator : Nat) : Nat :=
  let q := numerator / denominator
  let twice := 2 * (numerator % denominator)
  if twice < denominator then q
  else if denominator < twice then q + 1
  else if q % 2 = 0 then q else q + 1

def fixedText (places : Nat) : Binary → String
  | .nan => "NaN"
  | .infinite negative => (if negative then "-" else "") ++ "inf"
  | .finite negative significand exponent _ =>
    let n := roundDiv (significand * Nat.pow 2 exponent.toNat * Nat.pow 10 places)
      (Nat.pow 2 (-exponent).toNat)
    let ds := Nat.toDigits 10 n
    let ds := List.replicate (places + 1 - ds.length) '0' ++ ds
    (if negative then "-" else "") ++ String.ofList (ds.take (ds.length - places)) ++
      (if places = 0 then "" else "." ++ String.ofList (ds.drop (ds.length - places)))

end EndpointAudit.Decimal
