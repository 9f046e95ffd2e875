import EndpointAudit.Proofs.Doubles
import EndpointAudit.Proofs.Readback
import EndpointAudit.Proofs.ShortestDigits

namespace EndpointAudit.Json

open EndpointAudit.Decimal

variable {n : Numeral} {ds cs rest tail : List Char} {fraction : Option (List Nat)}
  {exponent : Option (Bool × List Nat)}

/-- How many places the value of a literal may have before its point. -/
def Numeral.reach (n : Numeral) : Nat :=
  n.whole.length + match n.exponent with
    | some (false,ds) => natOfDigits ds
    | _ => 0

section value

theorem accumulate_left_le (k : Nat) (ds : List Nat) : (accumulate k ds).2.length ≤ ds.length := by
  induction ds generalizing k with
  | nil => exact Nat.le_refl _
  | cons d ds ih =>
    rw [accumulate]
    split
    · exact Nat.le_succ_of_le (ih _)
    · exact Nat.le_refl _

theorem clampExponent_le {e : Int} (h : e ≤ 60) : clampExponent e ≤ 60 := by
  unfold clampExponent maxExponent
  split
  · omega
  · split <;> omega

/-- Digits that end before the point have a value with the exponent of a literal that does not reach too
far. -/
theorem raised_ok (h : n.reach ≤ 60) (significand : Nat) {start : Int} (hs : start ≤ n.whole.length) :
    ∃ x, (match n.exponent with
      | none => scaled significand start
      | some (negative,ds) =>
        let e := natOfDigits ds
        if maxExponent < e then
          if significand ≠ 0 && !negative then .error .malformed else .ok 0
        else scaled significand (clampExponent (if negative then start - e else start + e))) =
        .ok x := by
  obtain ⟨_,whole,_,exponent⟩ := n
  unfold Numeral.reach at h
  dsimp only at h hs ⊢
  cases exponent with
  | none => exact scaled_ok _ (by omega)
  | some e =>
    obtain ⟨negative,ds⟩ := e
    cases negative with
    | true =>
      dsimp only at h ⊢
      split
      · exact ⟨0,by simp⟩
      · exact scaled_ok _ (clampExponent_le (by rw [if_pos rfl]; omega))
    | false =>
      dsimp only at h ⊢
      rw [if_neg (by unfold maxExponent; omega)]
      exact scaled_ok _ (clampExponent_le (by rw [if_neg (by decide)]; omega))

/-- A literal that does not reach too far has a value. -/
theorem magnitude_ok (h : n.reach ≤ 60) : ∃ x, n.magnitude = .ok x := by
  have hleft := accumulate_left_le 0 n.whole
  unfold Numeral.magnitude
  dsimp only
  cases n.fraction with
  | none => exact raised_ok h _ (by dsimp only; omega)
  | some ds => exact raised_ok h _ (by dsimp only; omega)

theorem value_ok (h : n.reach ≤ 60) : ∃ n', n.value = .ok n' := by
  obtain ⟨x,hx⟩ := magnitude_ok h
  unfold Numeral.value
  dsimp only
  split
  · exact ⟨_,rfl⟩
  · split
    · exact ⟨_,rfl⟩
    · rw [hx]
      exact ⟨_,rfl⟩

end value

section scan

/-- What digits stand for. -/
abbrev values (ds : List Char) : List Nat :=
  ds.map fun c => c.toNat - 48

/-- The digits of a whole part: at least one, and no superfluous zero in front. -/
structure IsWhole (ds : List Char) : Prop where
  digits : ∀ c ∈ ds, c.isDigit
  nonempty : ds ≠ []
  lean : ds.head? = some '0' → ds = ['0']

theorem IsWhole.take (h : IsWhole ds) {k : Nat} (hk : 0 < k) : IsWhole (ds.take k) where
  digits c hc := h.digits c (List.mem_of_mem_take hc)
  nonempty hnil := h.nonempty ((List.take_eq_nil_iff.mp hnil).resolve_left (Nat.ne_of_gt hk))
  lean hzero := by
    rw [List.head?_take,if_neg (Nat.ne_of_gt hk)] at hzero
    rw [h.lean hzero]
    exact List.take_of_length_le hk

theorem IsWhole.append (h : IsWhole ds) (hne : ds ≠ ['0']) (hc : ∀ c ∈ cs, c.isDigit) :
    IsWhole (ds ++ cs) where
  digits c hm := (List.mem_append.mp hm).elim (h.digits c) (hc c)
  nonempty hnil := h.nonempty (List.append_eq_nil_iff.mp hnil).1
  lean hzero := by
    obtain ⟨d,ds,rfl⟩ := List.exists_cons_of_ne_nil h.nonempty
    exact absurd (h.lean hzero) hne

/-- A literal without a minus that reaches no further than so many places. -/
def Literal (k : Nat) (cs : List Char) : Prop :=
  ∃ n, scanNumeral cs = .ok (n,[]) ∧ n.negative = false ∧ n.reach ≤ k

end scan

/-- A literal with or without a minus is a number to the reader. -/
theorem Literal.reading {k : Nat} (h : Literal k cs) (hk : k ≤ 60) (negative : Bool) :
    ∃ n n', scanNumeral ((if negative then ['-'] else []) ++ cs) = .ok (n,[]) ∧ n.value = .ok n' := by
  obtain ⟨n,hscan,hsign,hreach⟩ := h
  cases negative with
  | false =>
    obtain ⟨n',hn⟩ := value_ok (Nat.le_trans hreach hk)
    exact ⟨n,n',hscan,hn⟩
  | true =>
    have hminus : scanNumeral ('-' :: cs) = .ok ({ n with negative := true },[]) := by
      obtain ⟨cs₁,cs₂,hn,hw,hf,he⟩ := scanNumeral_ok_iff.mp hscan
      have hself : (signOf cs).2 = cs := by
        unfold signOf at hn ⊢
        split at hn
        · rw [hsign] at hn
          cases hn
        · rfl
      rw [hself] at hw
      exact scanNumeral_ok_iff.mpr ⟨cs₁,cs₂,rfl,hw,hf,he⟩
    have hsame : Numeral.reach { n with negative := true } ≤ 60 := Nat.le_trans hreach hk
    obtain ⟨n',hn⟩ := value_ok hsame
    exact ⟨_,n',hminus,hn⟩

end EndpointAudit.Json
