import EndpointAudit.Decimal.Layout
import Mathlib.Data.Nat.Digits.Defs

namespace EndpointAudit.Decimal

variable {i : Interval} {d : Digits} {b k n step unit significand : Nat} {exponent : Int} {lowest : Bool}

/-- The power of ten of the first digit. -/
def Digits.leading (d : Digits) : Int :=
  (if d.digits = 0 then 0 else d.exponent) + ((Nat.toDigits 10 d.digits).length - 1 : Nat)

end EndpointAudit.Decimal
