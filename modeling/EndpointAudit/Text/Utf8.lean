namespace EndpointAudit.Text

/-- How many bytes must follow a first byte, and the bounds of the second byte. The bounds rule out
overlong forms, surrogates and code points above U+10FFFF. -/
def sequenceOf (b : UInt8) : Option (Nat × UInt8 × UInt8) :=
  if b < 0x80 then some (0,0x80,0xBF)
  else if b < 0xC2 then none
  else if b < 0xE0 then some (1,0x80,0xBF)
  else if b = 0xE0 then some (2,0xA0,0xBF)
  else if b = 0xED then some (2,0x80,0x9F)
  else if b < 0xF0 then some (2,0x80,0xBF)
  else if b = 0xF0 then some (3,0x90,0xBF)
  else if b < 0xF4 then some (3,0x80,0xBF)
  else if b = 0xF4 then some (3,0x80,0x8F)
  else none

/-- The bytes of a sequence after its first one, as far as they fit: the value so far, how many are
still missing, and the rest. -/
def continuation : Nat → UInt8 → UInt8 → Nat → List UInt8 → Nat × Nat × List UInt8
  | 0,_,_,value,bs => (value,0,bs)
  | missing + 1,_,_,value,[] => (value,missing + 1,[])
  | missing + 1,lo,hi,value,b :: bs =>
    if lo ≤ b ∧ b ≤ hi then
      continuation missing 0x80 0xBF (value * 64 + (b.toNat - 0x80)) bs
    else (value,missing + 1,b :: bs)

def firstBits (b : UInt8) (missing : Nat) : Nat :=
  match missing with
  | 0 => b.toNat
  | 1 => b.toNat - 0xC0
  | 2 => b.toNat - 0xE0
  | _ => b.toNat - 0xF0

/-- The next character and the bytes after it. -/
def nextChar (b : UInt8) (bs : List UInt8) : Char × List UInt8 :=
  match sequenceOf b with
  | none => ('\uFFFD',bs)
  | some (missing,lo,hi) =>
    match continuation missing lo hi (firstBits b missing) bs with
    | (value,0,rest) => (Char.ofNat value,rest)
    | (_,_ + 1,rest) => ('\uFFFD',rest)

theorem length_continuation (missing : Nat) (lo hi : UInt8) (value : Nat) (bs : List UInt8) :
    (continuation missing lo hi value bs).2.2.length ≤ bs.length := by
  fun_induction continuation missing lo hi value bs with
  | case1 => exact Nat.le_refl _
  | case2 => exact Nat.le_refl _
  | case3 _ _ _ _ _ _ _ ih => exact Nat.le_succ_of_le ih
  | case4 => exact Nat.le_refl _

theorem length_nextChar (b : UInt8) (bs : List UInt8) :
    (nextChar b bs).2.length ≤ bs.length := by
  unfold nextChar
  split
  · exact Nat.le_refl _
  · next missing lo hi _ =>
    have h := length_continuation missing lo hi (firstBits b missing) bs
    split <;> simp_all

def decodeLossy : List UInt8 → List Char
  | [] => []
  | b :: bs => (nextChar b bs).1 :: decodeLossy (nextChar b bs).2
termination_by bs => bs.length
decreasing_by
  have := length_nextChar b bs
  simp only [List.length_cons]
  omega

/-- Bytes read as UTF-8, with replacement characters where they are not. -/
def ofBytesLossy (bytes : ByteArray) : String :=
  match String.fromUTF8? bytes with
  | some s => s
  | none => String.ofList (decodeLossy bytes.toList)

end EndpointAudit.Text
