import EndpointAudit.Json.Numeral
import Mathlib.Algebra.Group.Nat.Defs

namespace EndpointAudit.Json

open Float.Model Float.Model.UnpackedFloat

variable {x y : UnpackedFloat} {sign : Sign} {m n n' : Nat} {e k k' l : Int}

/-- A number that is zero, or has a mantissa of so many bits and an exponent up to the given one. -/
def Bounded (n : Nat) (k : Int) : UnpackedFloat → Prop
  | .zero _ => True
  | .finite _ m e _ => m < 2 ^ n ∧ e ≤ k
  | _ => False

/-- The exponent that a double is stored with. -/
def storedExponent (x : Float) : Nat :=
  (@unpackExponent Format.binary64 x.toBits.toBitVec).toNat

theorem shift_mantissa_le (m : ExtendedMantissa) (n : Nat) : (m >>> n).mantissa ≤ m.mantissa := by
  induction n with
  | zero => exact Nat.le_refl _
  | succ n ih =>
    have hstep : (m >>> (n + 1)).mantissa = (m >>> n).mantissa / 2 := rfl
    rw [hstep]
    exact Nat.le_trans (Nat.div_le_self _ _) ih

theorem rounded_le (m : ExtendedMantissa) : m.roundedMantissa ≤ m.mantissa + 1 := by
  obtain ⟨m,round,sticky⟩ := m
  cases round <;> cases sticky <;>
    simp only [ExtendedMantissa.roundedMantissa,ExtendedMantissa.accuracy,Accuracy.roundToNearestEven]
  all_goals omega

theorem log2_le (h : m < 2 ^ n) : m.log2 ≤ n := by
  by_cases hm : m = 0
  · simp [hm]
  · exact Nat.le_of_lt ((Nat.log2_lt hm).mpr h)

/-- Where a number is brought into the format, its exponent grows by its own length at most. -/
theorem shift_bounds (h : m < 2 ^ n) (e : Int) :
    (shiftToTargetExponent Format.binary64 m e .exact).1.mantissa ≤ m ∧
      (shiftToTargetExponent Format.binary64 m e .exact).2 ≤ max e (-1074) + n := by
  have hlog := log2_le h
  have htarget : Format.binary64.targetExponent (totalExponent m e) =
      max (m.log2 + 1 + e - 53) (-1074) := rfl
  have hexponent : (shiftToTargetExponent Format.binary64 m e .exact).2 =
      e + ((Format.binary64.targetExponent (totalExponent m e) - e).toNat : Int) := rfl
  refine ⟨shift_mantissa_le _ _,?_⟩
  omega

theorem bounded_dite {c : Prop} [Decidable c] {x : c → UnpackedFloat} {y : ¬ c → UnpackedFloat}
    (hx : ∀ h, Bounded n k (x h)) (hy : ∀ h, Bounded n k (y h)) :
    Bounded n k (if h : c then x h else y h) := by
  by_cases h : c
  · rw [dif_pos h]
    exact hx h
  · rw [dif_neg h]
    exact hy h

theorem bounded_round (h : m < 2 ^ n) (sign : Sign) (hk : max e (-1074) + 2 * n + 1 ≤ k) :
    Bounded (n + 1) k (roundWithAccuracy Format.binary64 sign m e .exact) := by
  unfold roundWithAccuracy
  obtain ⟨hm₁,he₁⟩ := shift_bounds h e
  generalize shiftToTargetExponent Format.binary64 m e .exact = first at hm₁ he₁ ⊢
  obtain ⟨m₁,e₁⟩ := first
  dsimp only at hm₁ he₁
  have hr : m₁.roundedMantissa < 2 ^ (n + 1) := by
    have hround := rounded_le m₁
    have hpos := Nat.two_pow_pos n
    rw [Nat.pow_succ]
    omega
  obtain ⟨hm₂,he₂⟩ := shift_bounds hr e₁
  refine bounded_dite (fun _ => trivial) fun _ => ⟨Nat.lt_of_le_of_lt hm₂ hr,?_⟩
  exact Int.le_trans he₂ (by omega)

theorem bounded_mul (hx : Bounded n k x) (hy : Bounded n' k' y)
    (hk : max (k + k') (-1074) + 2 * (n + n') + 1 ≤ l) :
    Bounded (n + n' + 1) l (x.mul Format.binary64 y) := by
  cases x with
  | zero s =>
    cases y with
    | zero s' | finite s' m' e' hm' => trivial
    | infinity s' | notANumber => exact hy.elim
  | finite s m e hm =>
    cases y with
    | zero s' => trivial
    | finite s' m' e' hm' =>
      obtain ⟨hm,he⟩ := hx
      obtain ⟨hm',he'⟩ := hy
      have hlt : m * m' < 2 ^ (n + n') := by
        rw [Nat.pow_add]
        exact Nat.mul_lt_mul'' hm hm'
      exact bounded_round hlt (s * s') (by omega)
    | infinity s' | notANumber => exact hy.elim
  | infinity s | notANumber => exact hx.elim

/-- A short number is first made longer, by no more bits than the format has. -/
theorem bounded_normalize (h : m < 2 ^ n) (sign : Sign) (hk : 2 * (n + 53) + 1 ≤ k) :
    Bounded (n + 53 + 1) k (UnpackedFloat.round Format.binary64 sign m 0) := by
  have htarget : Format.binary64.targetExponent (totalExponent m 0) =
      max ((m.log2 : Int) + 1 + 0 - 53) (-1074) := rfl
  unfold UnpackedFloat.round decreaseExponent
  dsimp only
  generalize hshift : ((0 : Int) - Format.binary64.targetExponent (totalExponent m 0)).toNat = shift
  have hlt : m <<< shift < 2 ^ (n + 53) := by
    rw [Nat.shiftLeft_eq,Nat.pow_add]
    refine Nat.lt_of_lt_of_le (Nat.mul_lt_mul_of_pos_right h (Nat.two_pow_pos _)) ?_
    exact Nat.mul_le_mul_left _ (Nat.pow_le_pow_right (by decide) (by omega))
  exact bounded_round hlt sign (by omega)

theorem bounded_ofUInt64 (w : UInt64) :
    Bounded 118 235 (UnpackedFloat.ofUInt64 Format.binary64 w) := by
  change Bounded 118 235 (UnpackedFloat.normalize Format.binary64 w.toNat 0 .positive)
  unfold UnpackedFloat.normalize
  split
  · rename_i hlt
    rw [Int.compare_eq_lt] at hlt
    omega
  · trivial
  · exact bounded_normalize w.toNat_lt .positive (by decide)

/-- What a double stands for is bounded by the exponent that it is stored with. -/
theorem bounded_unpack {k : Nat} {b : BitVec 64} (hk : k < 2047)
    (h : (@unpackExponent Format.binary64 b).toNat ≤ k) :
    Bounded 53 (k - 1074) (UnpackedFloat.unpack Format.binary64 b) := by
  have htop : @unpackExponent Format.binary64 b ≠ -1#11 := by
    intro htop
    rw [htop] at h
    have hfull : (-1#11).toNat = 2047 := rfl
    omega
  have hbias : ((Format.binary64.exponentBias : Int) + Format.binary64.mantissaBitsWithoutImplicit) = 1075 := rfl
  unfold UnpackedFloat.unpack
  dsimp only
  rw [if_neg htop,hbias]
  by_cases hsmall : @unpackExponent Format.binary64 b = 0#11
  · rw [if_pos hsmall]
    refine bounded_dite (fun _ => trivial) fun _ => ⟨?_,by omega⟩
    exact Nat.lt_trans (BitVec.isLt _) (Nat.pow_lt_pow_right (by decide) (show 52 < 53 by decide))
  · rw [if_neg hsmall]
    exact ⟨BitVec.isLt _,by omega⟩

/-- A number with a small exponent is stored with a small exponent. -/
theorem stored_pack {k : Nat} (hk : k < 2047) (h : Bounded n (k - 1075) x) :
    (@unpackExponent Format.binary64 (UnpackedFloat.pack Format.binary64 x)).toNat ≤ k := by
  cases x with
  | zero s =>
    have hzero : @unpackExponent Format.binary64 (packedZero Format.binary64 s) = 0#11 :=
      unpackExponent_packComponents
    exact hzero ▸ Nat.zero_le k
  | finite s m e hm =>
    obtain ⟨_,he⟩ := h
    have hbiased : e + Format.binary64.exponentBias + Format.binary64.mantissaBitsWithoutImplicit =
        e + 1075 := Int.add_assoc e 1023 52
    have hfits : ¬ 2 ^ Format.binary64.exponentBits ≤ (e + 1075).toNat + 1 := by
      change ¬ 2048 ≤ (e + 1075).toNat + 1
      omega
    have hpack : UnpackedFloat.pack Format.binary64 (.finite s m e hm) =
        if m.log2 + 1 = Format.binary64.mantissaBits then
          packComponents Format.binary64 s (BitVec.ofNat _ (e + 1075).toNat) (BitVec.ofNat _ m)
        else packComponents Format.binary64 s 0#_ (BitVec.ofNat _ m) := by
      rw [← hbiased] at hfits ⊢
      exact if_neg hfits
    rw [hpack]
    split
    · rw [unpackExponent_packComponents,BitVec.toNat_ofNat]
      exact Nat.le_trans (Nat.mod_le _ _) (by omega)
    · rw [unpackExponent_packComponents]
      exact Nat.zero_le _
  | infinity s | notANumber => exact h.elim

/-- Powers of ten beyond the largest in single precision are still far below the largest double. -/
theorem stored_powerOfTen : ∀ e ≤ 60, storedExponent (powerOfTen e) ≤ 1300 := by
  decide +kernel

/-- A word times such a power is no larger than a double can be. -/
theorem isInf_word_mul (w : UInt64) {e : Nat} (he : e ≤ 60) :
    (w.toFloat * powerOfTen e).isInf = false := by
  have hword : Bounded 53 (1310 - 1074) w.toFloat.toModel.unpack :=
    bounded_unpack (by decide) (stored_pack (by decide) (bounded_ofUInt64 w))
  have hpower : Bounded 53 (1300 - 1074) (powerOfTen e).toModel.unpack :=
    bounded_unpack (by decide) (stored_powerOfTen e he)
  have hproduct : Bounded 53 (1800 - 1074) (w.toFloat * powerOfTen e).toModel.unpack :=
    bounded_unpack (by decide) (stored_pack (by decide) (bounded_mul hword hpower (by decide)))
  change (w.toFloat * powerOfTen e).toModel.unpack.isInf = false
  cases hx : (w.toFloat * powerOfTen e).toModel.unpack with
  | infinity s =>
    rw [hx] at hproduct
    exact hproduct.elim
  | zero s | finite s m e hm | notANumber => rfl

/-- Digits with such an exponent, or a smaller one, have a value. -/
theorem scaled_ok (significand : Nat) {exponent : Int} (h : exponent ≤ 60) :
    ∃ x, scaled significand exponent = .ok x := by
  unfold scaled
  dsimp only
  split
  · rw [if_pos (by omega),isInf_word_mul significand.toUInt64 (by omega)]
    exact ⟨_,rfl⟩
  · exact ⟨_,rfl⟩

end EndpointAudit.Json
