import EndpointAudit.Json.Basic
import EndpointAudit.Json.Fault

namespace EndpointAudit.Json

/-- A literal taken apart. Digits are kept as numbers from 0 to 9. -/
structure Numeral where
  negative : Bool
  whole : List Nat
  fraction : Option (List Nat)
  exponent : Option (Bool × List Nat)
deriving Repr, DecidableEq

def digit? (c : Char) : Option Nat :=
  if '0' ≤ c ∧ c ≤ '9' then some (c.toNat - 48) else none

def takeDigits : List Char → List Nat × List Char
  | [] => ([],[])
  | c :: cs =>
    match digit? c with
    | none => ([],c :: cs)
    | some d => let (ds,rest) := takeDigits cs; (d :: ds,rest)

/-- A literal that breaks off. `read` is the fault when its value is wanted, `skipped` the one when
only its end is looked for: there the end of the input is no special case. -/
structure BrokenNumeral where
  read : Fault
  skipped : Fault

def brokenAt (cs : List Char) : BrokenNumeral :=
  ⟨if cs.isEmpty then .ended else .malformed,.malformed⟩

/-- A part that needs at least one digit. -/
def someDigits (cs : List Char) : Except BrokenNumeral (List Nat × List Char) :=
  match takeDigits cs with
  | ([],rest) => .error (brokenAt rest)
  | (ds,rest) => .ok (ds,rest)

def scanWhole (cs : List Char) : Except BrokenNumeral (List Nat × List Char) :=
  match takeDigits cs with
  | ([],rest) => .error (brokenAt rest)
  | (0 :: _ :: _,_) => .error ⟨.malformed,.malformed⟩
  | (ds,rest) => .ok (ds,rest)

def scanFraction : List Char → Except BrokenNumeral (Option (List Nat) × List Char)
  | '.' :: cs => (someDigits cs).map fun (ds,rest) => (some ds,rest)
  | cs => .ok (none,cs)

def scanSign : List Char → Bool × List Char
  | '+' :: cs => (false,cs)
  | '-' :: cs => (true,cs)
  | cs => (false,cs)

def scanExponent : List Char → Except BrokenNumeral (Option (Bool × List Nat) × List Char)
  | c :: cs =>
    if c = 'e' ∨ c = 'E' then
      let (negative,cs) := scanSign cs
      (someDigits cs).map fun (ds,rest) => (some (negative,ds),rest)
    else .ok (none,c :: cs)
  | [] => .ok (none,[])

/-- Takes apart the literal at the start of a list that begins with a minus or a digit. -/
def scanNumeral (cs : List Char) : Except BrokenNumeral (Numeral × List Char) := do
  let (negative,cs) :=
    match cs with
    | '-' :: cs => (true,cs)
    | cs => (false,cs)
  let (whole,cs) ← scanWhole cs
  let (fraction,cs) ← scanFraction cs
  let (exponent,cs) ← scanExponent cs
  return (⟨negative,whole,fraction,exponent⟩,cs)

def maxWord : Nat := UInt64.size - 1

/-- Takes digits into a significand while it fits into 64 bits, and returns those left over. -/
def accumulate (n : Nat) : List Nat → Nat × List Nat
  | [] => (n,[])
  | d :: ds => if n * 10 + d ≤ maxWord then accumulate (n * 10 + d) ds else (n,d :: ds)

def natOfDigits (ds : List Nat) : Nat :=
  ds.foldl (fun n d => n * 10 + d) 0

def powerOfTen (e : Nat) : Float :=
  Float.ofScientific 1 false e

/-- Divides by the largest power of ten below the range of the doubles until the exponent is small
enough for one more division. -/
def scaleDown (x : Float) (e : Nat) : Nat → Float
  | 0 => 0
  | fuel + 1 =>
    if e ≤ 308 then x / powerOfTen e
    else if x == 0 then x
    else scaleDown (x / powerOfTen 308) (e - 308) fuel

/-- The double next to `significand * 10 ^ exponent`, up to the rounding of one operation. -/
def scaled (significand : Nat) (exponent : Int) : Except Fault Float :=
  let x := significand.toUInt64.toFloat
  if 0 ≤ exponent then
    if exponent ≤ 308 then
      let y := x * powerOfTen exponent.toNat
      if y.isInf then .error .malformed else .ok y
    else if x == 0 then .ok x
    else .error .malformed
  else .ok (scaleDown x exponent.natAbs (exponent.natAbs / 308 + 2))

def maxExponent : Nat := 2147483647

/-- Exponents are kept within 32 bits, where a literal exponent beyond them decides the value. -/
def clampExponent (e : Int) : Int :=
  if (maxExponent : Int) < e then maxExponent
  else if e < -((maxExponent : Int) + 1) then -((maxExponent : Int) + 1)
  else e

/-- The absolute value of a literal with a fraction, an exponent, or too many digits. -/
def Numeral.magnitude (n : Numeral) : Except Fault Float :=
  let (significand,dropped) := accumulate 0 n.whole
  let (significand,places) :=
    match n.fraction with
    | none => (significand,0)
    | some ds =>
      let (s,left) := accumulate significand ds
      (s,ds.length - left.length)
  let start : Int := dropped.length - places
  match n.exponent with
  | none => scaled significand start
  | some (negative,ds) =>
    let e := natOfDigits ds
    if maxExponent < e then
      if significand ≠ 0 && !negative then .error .malformed else .ok 0
    else scaled significand (clampExponent (if negative then start - e else start + e))

/-- The value of a literal. A negative zero is a double, for its sign. -/
def Numeral.value (n : Numeral) : Except Fault Number :=
  let whole := natOfDigits n.whole
  if n.fraction.isNone && n.exponent.isNone && whole ≤ maxWord && !n.negative then
    .ok (.nat whole)
  else if n.fraction.isNone && n.exponent.isNone && 0 < whole && whole ≤ maxWord / 2 + 1 then
    .ok (.negative whole)
  else n.magnitude.map fun x => .double (if n.negative then -x else x).toBits

end EndpointAudit.Json
