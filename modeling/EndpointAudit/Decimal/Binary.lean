namespace EndpointAudit.Decimal

/-- A floating-point number taken apart. A finite one is `significand * 2 ^ exponent`; `lowest`
marks a significand that is the least of its binade, whose lower neighbour is half as far away as
its upper one. -/
inductive Binary
  | nan
  | infinite (negative : Bool)
  | finite (negative : Bool) (significand : Nat) (exponent : Int) (lowest : Bool)
deriving Repr, DecidableEq

/-- Takes apart the bits of a format with `fraction` fraction bits, whose exponent field reaches
`top` and whose least exponent is `least`. -/
def Binary.ofFields (fraction top : Nat) (least : Int) (bits : Nat) : Binary :=
  let unit := Nat.pow 2 fraction
  let low := bits % unit
  let field := bits / unit % (top + 1)
  let negative := bits / unit / (top + 1) % 2 == 1
  if field = top then
    if low = 0 then .infinite negative else .nan
  else if field = 0 then .finite negative low least false
  else .finite negative (unit + low) (least + (field - 1 : Nat)) (low == 0 && field > 1)

def Binary.ofFloat (x : Float) : Binary :=
  .ofFields 52 2047 (-1074) x.toBits.toNat

def Binary.ofFloat32 (x : Float32) : Binary :=
  .ofFields 23 255 (-149) x.toBits.toNat

end EndpointAudit.Decimal
