import EndpointAudit.Json.Numeral
import EndpointAudit.Json.Printer

namespace EndpointAudit.Json

/-- Text that cannot go on with a number literal. -/
def Stops (rest : List Char) : Prop :=
  ∀ c ∈ rest.head?, digit? c = none ∧ c ≠ '.' ∧ c ≠ 'e' ∧ c ≠ 'E'

theorem stops_nil : Stops [] := by
  simp [Stops]

variable {cs left rest : List Char} {ds : List Nat}

theorem takeDigits_append (h : takeDigits cs = (ds,left)) (hr : Stops rest) :
    takeDigits (cs ++ rest) = (ds,left ++ rest) := by
  induction cs generalizing ds with
  | nil =>
    cases h
    cases rest with
    | nil => rfl
    | cons c rest =>
      have hc := (hr c (by simp)).1
      simp [takeDigits,hc]
  | cons c cs ih =>
    simp only [takeDigits,List.cons_append] at h ⊢
    cases hc : digit? c with
    | none =>
      simp only [hc] at h ⊢
      cases h
      rfl
    | some d =>
      simp only [hc] at h ⊢
      rcases ht : takeDigits cs with ⟨ds',left'⟩
      rw [ht] at h
      cases h
      rw [ih ht]

theorem someDigits_append (h : someDigits cs = .ok (ds,left)) (hr : Stops rest) :
    someDigits (cs ++ rest) = .ok (ds,left ++ rest) := by
  unfold someDigits at h ⊢
  rcases ht : takeDigits cs with ⟨_ | ⟨d,ds'⟩,left'⟩
  · simp [ht] at h
  · simp only [ht,Except.ok.injEq,Prod.mk.injEq] at h
    rw [takeDigits_append ht hr]
    simp [h]

theorem scanWhole_append (h : scanWhole cs = .ok (ds,left)) (hr : Stops rest) :
    scanWhole (cs ++ rest) = .ok (ds,left ++ rest) := by
  unfold scanWhole at h ⊢
  rcases ht : takeDigits cs with ⟨ds',left'⟩
  rw [ht] at h
  rw [takeDigits_append ht hr]
  split at h
  · cases h
  · cases h
  · rename_i hnil hzero heq
    cases h
    cases heq
    split
    · rename_i he
      cases he
      exact (hnil rfl).elim
    · rename_i he
      cases he
      exact (hzero _ _ rfl).elim
    · rename_i he
      cases he
      rfl

theorem scanFraction_append {fraction : Option (List Nat)}
    (h : scanFraction cs = .ok (fraction,left)) (hr : Stops rest) :
    scanFraction (cs ++ rest) = .ok (fraction,left ++ rest) := by
  cases cs with
  | nil =>
    cases h
    cases rest with
    | nil => rfl
    | cons c rest =>
      have hc := (hr c (by simp)).2.1
      simp [scanFraction,hc]
  | cons c cs =>
    by_cases hc : c = '.'
    · subst hc
      simp only [scanFraction,List.cons_append] at h ⊢
      cases hs : someDigits cs with
      | error b =>
        rw [hs] at h
        cases h
      | ok r =>
        rw [hs] at h
        cases h
        rw [someDigits_append hs hr]
        rfl
    · have hsame (xs : List Char) : scanFraction (c :: xs) = .ok (none,c :: xs) := by
        simp [scanFraction,hc]
      rw [hsame] at h
      cases h
      exact hsame _

theorem scanSign_append {negative : Bool} (hne : left ≠ []) (h : scanSign cs = (negative,left)) :
    scanSign (cs ++ rest) = (negative,left ++ rest) := by
  unfold scanSign at h ⊢
  split at h
  · cases h
    rfl
  · cases h
    rfl
  · rename_i hplus hminus
    cases h
    cases cs with
    | nil => exact absurd rfl hne
    | cons c cs =>
      split
      · rename_i he
        cases he
        exact absurd rfl (hplus _)
      · rename_i he
        cases he
        exact absurd rfl (hminus _)
      · rfl

theorem someDigits_ne_nil (h : someDigits cs = .ok (ds,left)) : cs ≠ [] := by
  intro hc
  subst hc
  cases h

theorem scanExponent_append {exponent : Option (Bool × List Nat)}
    (h : scanExponent cs = .ok (exponent,left)) (hr : Stops rest) :
    scanExponent (cs ++ rest) = .ok (exponent,left ++ rest) := by
  cases cs with
  | nil =>
    cases h
    cases rest with
    | nil => rfl
    | cons c rest =>
      have hc := (hr c (by simp)).2.2
      simp [scanExponent,hc]
  | cons c cs =>
    by_cases hc : c = 'e' ∨ c = 'E'
    · simp only [scanExponent,List.cons_append,hc,↓reduceIte] at h ⊢
      rcases hs : scanSign cs with ⟨negative,cs'⟩
      rw [hs] at h
      simp only at h
      cases hd : someDigits cs' with
      | error b =>
        rw [hd] at h
        cases h
      | ok r =>
        rw [hd] at h
        cases h
        rw [scanSign_append (someDigits_ne_nil hd) hs]
        simp only
        rw [someDigits_append hd hr]
        rfl
    · have hsame (xs : List Char) : scanExponent (c :: xs) = .ok (none,c :: xs) := by
        simp [scanExponent,hc]
      rw [hsame] at h
      cases h
      exact hsame _

/-- The sign of a literal, and what follows it. -/
def signOf : List Char → Bool × List Char
  | '-' :: cs => (true,cs)
  | cs => (false,cs)

/-- A literal is scanned part by part. -/
theorem scanNumeral_ok_iff {m : Numeral} :
    scanNumeral cs = .ok (m,left) ↔ ∃ cs₁ cs₂, (signOf cs).1 = m.negative ∧
      scanWhole (signOf cs).2 = .ok (m.whole,cs₁) ∧ scanFraction cs₁ = .ok (m.fraction,cs₂) ∧
      scanExponent cs₂ = .ok (m.exponent,left) := by
  have hs : scanNumeral cs = scanWhole (signOf cs).2 >>= fun w => scanFraction w.2 >>= fun f =>
      scanExponent f.2 >>= fun e => pure (⟨(signOf cs).1,w.1,f.1,e.1⟩,e.2) := rfl
  rw [hs]
  constructor
  · intro h
    cases hw : scanWhole (signOf cs).2 with
    | error b =>
      rw [hw] at h
      cases h
    | ok w =>
      cases hf : scanFraction w.2 with
      | error b =>
        simp only [hw,bind,Except.bind,hf] at h
        cases h
      | ok f =>
        cases he : scanExponent f.2 with
        | error b =>
          simp only [hw,bind,Except.bind,hf,he] at h
          cases h
        | ok e =>
          simp only [hw,bind,Except.bind,hf,he,pure,Except.pure] at h
          cases h
          exact ⟨w.2,f.2,rfl,rfl,hf,he⟩
  · rintro ⟨cs₁,cs₂,hn,hw,hf,he⟩
    simp only [hw,bind,Except.bind,hf,he,pure,Except.pure,hn]

theorem scanWhole_head (h : scanWhole cs = .ok (ds,left)) :
    ∃ c cs', cs = c :: cs' ∧ (digit? c).isSome := by
  cases cs with
  | nil => cases h
  | cons c cs =>
    refine ⟨c,cs,rfl,?_⟩
    cases hd : digit? c with
    | some d => rfl
    | none => simp [scanWhole,takeDigits,hd] at h

/-- A literal begins with a minus or a digit. -/
theorem scanNumeral_head {m : Numeral} (h : scanNumeral cs = .ok (m,left)) :
    ∃ c cs', cs = c :: cs' ∧ (c = '-' ∨ (digit? c).isSome) := by
  obtain ⟨_,_,_,hw,_⟩ := scanNumeral_ok_iff.mp h
  unfold signOf at hw
  split at hw
  · exact ⟨_,_,rfl,.inl rfl⟩
  · obtain ⟨c,cs',hc,hd⟩ := scanWhole_head hw
    exact ⟨c,cs',hc,.inr hd⟩

theorem scanNumeral_append {m : Numeral} (h : scanNumeral cs = .ok (m,left)) (hr : Stops rest) :
    scanNumeral (cs ++ rest) = .ok (m,left ++ rest) := by
  obtain ⟨c,cs',rfl,_⟩ := scanNumeral_head h
  obtain ⟨cs₁,cs₂,hn,hw,hf,he⟩ := scanNumeral_ok_iff.mp h
  have hsign : signOf (c :: cs' ++ rest) = ((signOf (c :: cs')).1,(signOf (c :: cs')).2 ++ rest) := by
    unfold signOf
    split <;> simp_all
  refine scanNumeral_ok_iff.mpr ⟨cs₁ ++ rest,cs₂ ++ rest,?_,?_,scanFraction_append hf hr,
    scanExponent_append he hr⟩
  · rw [hsign]
    exact hn
  · rw [hsign]
    exact scanWhole_append hw hr

/-- What the reader makes of a number that was written. -/
def Number.reading (n : Number) : Except Fault Number :=
  match scanNumeral n.chars with
  | .ok (m,[]) => m.value
  | _ => .error .malformed

/-- A number that is read back as it was written. -/
def Number.Exact (n : Number) : Prop :=
  n.reading = .ok n

theorem digit?_of_isDigit {c : Char} (h : c.isDigit) : digit? c = some (c.toNat - 48) := by
  have hc : '0' ≤ c ∧ c ≤ '9' := by
    simpa [Char.isDigit,Char.le_def] using h
  rw [digit?,if_pos hc]

theorem takeDigits_of_isDigit (h : ∀ c ∈ cs, c.isDigit) :
    takeDigits cs = (cs.map fun c => c.toNat - 48,[]) := by
  induction cs with
  | nil => rfl
  | cons c cs ih =>
    have hc := digit?_of_isDigit (h c List.mem_cons_self)
    simp only [takeDigits,hc,ih fun d hd => h d (List.mem_cons_of_mem _ hd)]
    rfl

theorem natOfDigits_toDigits (n : Nat) :
    natOfDigits ((Nat.toDigits 10 n).map fun c => c.toNat - 48) = n := by
  have hstep : ∀ (k : Nat) (c : Char), k * 10 + (c.toNat - 48) = 10 * k + (c.toNat - 48) := by
    intro k c
    omega
  have h := Nat.ofDigitChars_toDigits (b := 10) (n := n) (by decide) (by decide)
  rw [Nat.ofDigitChars_eq_foldl] at h
  rw [natOfDigits,List.foldl_map]
  simp only [hstep]
  exact h

theorem digitChar_ne_zero : ∀ n < 10, 0 < n → n.digitChar ≠ '0' := by
  decide

theorem toDigits_head {n : Nat} (h : 0 < n) : ∃ c cs, Nat.toDigits 10 n = c :: cs ∧ c ≠ '0' := by
  induction n using Nat.strongRecOn with
  | _ n ih =>
    rw [Nat.toDigits_eq_if (by decide)]
    split
    · rename_i hn
      exact ⟨_,_,rfl,digitChar_ne_zero n hn h⟩
    · rename_i hn
      obtain ⟨c,cs,hc,hne⟩ := ih (n / 10) (by omega) (by omega)
      exact ⟨c,cs ++ [(n % 10).digitChar],by rw [hc]; rfl,hne⟩

theorem value_ne_zero {c : Char} (hd : c.isDigit) (hc : c ≠ '0') : c.toNat - 48 ≠ 0 := by
  have hrange := Char.isDigit_iff_toNat.mp hd
  have hzero : '0'.toNat = 48 := rfl
  intro hz
  apply hc
  rw [← Char.ofNat_toNat c,show c.toNat = 48 by omega]

/-- The digits of a number have no superfluous zero in front. -/
theorem scanWhole_toDigits (n : Nat) :
    scanWhole (Nat.toDigits 10 n) = .ok ((Nat.toDigits 10 n).map fun c => c.toNat - 48,[]) := by
  have hd : ∀ c ∈ Nat.toDigits 10 n, c.isDigit := fun c hc =>
    Nat.isDigit_of_mem_toDigits (by decide) (by decide) hc
  unfold scanWhole
  rw [takeDigits_of_isDigit hd]
  rcases Nat.eq_zero_or_pos n with rfl | hn
  · rfl
  · obtain ⟨c,cs,hc,hne⟩ := toDigits_head hn
    have hpos := value_ne_zero (hd c (hc ▸ List.mem_cons_self)) hne
    rw [hc,List.map_cons]
    generalize c.toNat - 48 = d at hpos ⊢
    cases d with
    | zero => exact absurd rfl hpos
    | succ d => rfl

theorem signOf_toDigits (n : Nat) : signOf (Nat.toDigits 10 n) = (false,Nat.toDigits 10 n) := by
  unfold signOf
  split
  · rename_i cs hc
    have := Nat.isDigit_of_mem_toDigits (b := 10) (n := n) (c := '-') (by decide) (by decide)
      (hc ▸ List.mem_cons_self)
    exact absurd this (by decide)
  · rfl

theorem exact_nat {n : Nat} (h : n ≤ maxWord) : (Number.nat n).Exact := by
  have hs : scanNumeral (Nat.toDigits 10 n) =
      .ok (⟨false,(Nat.toDigits 10 n).map fun c => c.toNat - 48,none,none⟩,[]) :=
    scanNumeral_ok_iff.mpr ⟨[],[],by rw [signOf_toDigits],by
      rw [signOf_toDigits]
      exact scanWhole_toDigits n,rfl,rfl⟩
  unfold Number.Exact Number.reading
  rw [Number.chars,hs]
  simp [Numeral.value,natOfDigits_toDigits,h]

theorem exact_negative {n : Nat} (hpos : 0 < n) (h : n ≤ maxWord / 2 + 1) :
    (Number.negative n).Exact := by
  have hs : scanNumeral ('-' :: Nat.toDigits 10 n) =
      .ok (⟨true,(Nat.toDigits 10 n).map fun c => c.toNat - 48,none,none⟩,[]) :=
    scanNumeral_ok_iff.mpr ⟨[],[],rfl,scanWhole_toDigits n,rfl,rfl⟩
  unfold Number.Exact Number.reading
  rw [Number.chars,hs]
  simp [Numeral.value,natOfDigits_toDigits,h,hpos]

end EndpointAudit.Json
