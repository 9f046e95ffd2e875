import EndpointAudit.CodeSpan
import EndpointAudit.Proofs.Trimming
import Mathlib.Algebra.Group.Int.Defs
import Mathlib.Algebra.Group.Nat.Defs

namespace EndpointAudit

theorem bind_eq_ok_iff {ε α β : Type} {x : Except ε α} {f : α → Except ε β} {b : β} :
    x >>= f = .ok b ↔ ∃ a, x = .ok a ∧ f a = .ok b := by
  cases x with
  | error e => simp [bind,Except.bind]
  | ok a => simp [bind,Except.bind]

theorem mapError_eq_ok_iff {ε ε' α : Type} {x : Except ε α} {f : ε → ε'} {a : α} :
    x.mapError f = .ok a ↔ x = .ok a := by
  cases x with
  | error e => exact ⟨nofun,nofun⟩
  | ok b => exact ⟨fun h => congrArg _ (Except.ok.inj h),fun h => congrArg _ (Except.ok.inj h)⟩

namespace Text

theorem not_blank_of_isDigit {c : Char} (h : c.isDigit) : isBlank c = false := by
  have hc : 48 ≤ c.toNat ∧ c.toNat ≤ 57 := Char.isDigit_iff_toNat.mp h
  simp only [isBlank,Bool.or_eq_false_iff,Bool.and_eq_false_imp,decide_eq_true_eq,
    decide_eq_false_iff_not,Nat.not_le,beq_eq_false_iff_ne,ne_eq]
  omega

end Text

namespace CodeSpan

/-- The number that a sign makes of an absolute value. -/
def signed (sign : List Char) (n : Nat) : Int :=
  if sign = ['-'] then -n else n

/-- One of the signs and digits in base ten, with the number that they make. -/
inductive Spells (signs : List (List Char)) : List Char → Int → Prop
  | number {sign digits : List Char} (allowed : sign ∈ signs) (some_digit : digits ≠ [])
    (each : ∀ c ∈ digits, c.isDigit) :
    Spells signs (sign ++ digits) (signed sign (Nat.ofDigitChars 10 digits 0))

/-- A bound of a span: the letter `L` and a number, with blanks around both. -/
def Bound (signs : List (List Char)) (text : String) (n : Int) : Prop :=
  ∃ number, Text.trim text = "L" ++ String.ofList number ∧ Spells signs number n

/-- How a span is written. The path may be any text but the empty one. A minus can stand only before the
second bound, which must be a zero then. -/
structure Writes (position : String) (s : CodeSpan) (first last : String) : Prop where
  parts : position = s.path ++ ":" ++ first ++ "-" ++ last
  named : s.path ≠ ""
  colonless : ':' ∉ first.toList ∧ ':' ∉ last.toList
  dashless : '-' ∉ first.toList
  start : Bound [[],['+']] first s.start
  stop : Bound [[],['+'],['-']] last s.stop
  ordered : s.start ≤ s.stop
  within : s.stop < 2 ^ 63

theorem digitValue?_eq_some_iff {c : Char} {d : Nat} :
    digitValue? c = some d ↔ c.isDigit ∧ d = c.toNat - 48 := by
  have hdigit : c.isDigit = true ↔ '0' ≤ c ∧ c ≤ '9' := by
    simp [Char.isDigit,Char.le_def]
  unfold digitValue?
  rw [hdigit]
  split
  · rename_i hc
    rw [Option.some.injEq,and_iff_right hc]
    exact eq_comm
  · rename_i hc
    simp [hc]

theorem foldlM_digits {cs : List Char} {n m : Nat} :
    cs.foldlM (fun n c => (digitValue? c).map fun d => n * 10 + d) n = some m ↔
      (∀ c ∈ cs, c.isDigit) ∧ Nat.ofDigitChars 10 cs n = m := by
  induction cs generalizing n with
  | nil => simp [Nat.ofDigitChars]
  | cons c cs ih =>
    rw [List.foldlM_cons,List.forall_mem_cons]
    cases hd : digitValue? c with
    | none =>
      have hc : ¬ c.isDigit := by
        intro hc
        rw [digitValue?_eq_some_iff.mpr ⟨hc,rfl⟩] at hd
        cases hd
      simp [hc]
    | some d =>
      obtain ⟨hc,rfl⟩ := digitValue?_eq_some_iff.mp hd
      have hstep : Nat.ofDigitChars 10 (c :: cs) n =
          Nat.ofDigitChars 10 cs (n * 10 + (c.toNat - 48)) := by
        rw [Nat.mul_comm]
        rfl
      simp [ih,hc,hstep]

theorem natOf?_eq_some_iff {cs : List Char} {n : Nat} :
    natOf? cs = some n ↔ cs ≠ [] ∧ (∀ c ∈ cs, c.isDigit) ∧ Nat.ofDigitChars 10 cs 0 = n := by
  unfold natOf?
  split
  · rename_i he
    simp [List.isEmpty_iff.mp he]
  · rename_i he
    rw [foldlM_digits,and_iff_right (mt List.isEmpty_iff.mpr he)]

theorem integerOf?_eq_some {cs : List Char} {i : Int} (h : integerOf? cs = some i) :
    ∃ sign digits n, sign ∈ [[],['+'],['-']] ∧ cs = sign ++ digits ∧ natOf? digits = some n ∧
      i = signed sign n ∧ -2 ^ 63 ≤ i ∧ i < 2 ^ 63 := by
  have hmax : maxInteger + 1 = 2 ^ 63 := rfl
  unfold integerOf? at h
  split at h
  · rename_i digits
    obtain ⟨n,hn,hi⟩ := Option.bind_eq_some_iff.mp h
    split at hi <;> cases hi
    exact ⟨['-'],digits,n,by simp,rfl,hn,rfl,by omega,by omega⟩
  · rename_i digits
    obtain ⟨n,hn,hi⟩ := Option.bind_eq_some_iff.mp h
    split at hi <;> cases hi
    exact ⟨['+'],digits,n,by simp,rfl,hn,rfl,by omega,by omega⟩
  · obtain ⟨n,hn,hi⟩ := Option.bind_eq_some_iff.mp h
    split at hi <;> cases hi
    exact ⟨[],cs,n,by simp,rfl,hn,rfl,by omega,by omega⟩

theorem integerOf?_digits {digits : List Char} (h : ∀ c ∈ digits, c.isDigit) :
    integerOf? digits = (natOf? digits).bind fun n => if n ≤ maxInteger then some (n : Int) else none := by
  unfold integerOf?
  split
  · exact absurd (h '-' List.mem_cons_self) (by decide)
  · exact absurd (h '+' List.mem_cons_self) (by decide)
  · rfl

/-- The numbers that are read are those of 64 bits with a sign. -/
theorem integerOf?_eq_some_iff {cs : List Char} {i : Int} :
    integerOf? cs = some i ↔ Spells [[],['+'],['-']] cs i ∧ -2 ^ 63 ≤ i ∧ i < 2 ^ 63 := by
  constructor
  · intro h
    obtain ⟨sign,digits,n,hs,rfl,hn,rfl,hrange⟩ := integerOf?_eq_some h
    obtain ⟨hne,hd,rfl⟩ := natOf?_eq_some_iff.mp hn
    exact ⟨.number hs hne hd,hrange⟩
  · intro ⟨hspells,hlow,hhigh⟩
    have hmax : maxInteger + 1 = 2 ^ 63 := rfl
    cases hspells with
    | @number sign digits allowed some_digit each =>
      have hn := natOf?_eq_some_iff.mpr ⟨some_digit,each,rfl⟩
      generalize Nat.ofDigitChars 10 digits 0 = n at hn hlow hhigh ⊢
      simp only [List.mem_cons,List.not_mem_nil,or_false] at allowed
      rcases allowed with rfl | rfl | rfl
      · change (n : Int) < 2 ^ 63 at hhigh
        rw [List.nil_append,integerOf?_digits each,hn]
        exact if_pos (by omega)
      · change (n : Int) < 2 ^ 63 at hhigh
        change (natOf? digits).bind _ = _
        rw [hn]
        exact if_pos (by omega)
      · change -2 ^ 63 ≤ -(n : Int) at hlow
        change (natOf? digits).bind _ = _
        rw [hn]
        exact if_pos (by omega)

/-- A bound is read just if it is not negative and fits into 64 bits with a sign. -/
theorem boundOf_eq_ok_iff {text : String} {n : Nat} :
    boundOf text.toList = .ok n ↔ Bound [[],['+'],['-']] text n ∧ n < 2 ^ 63 := by
  have htrim {cs : List Char} : Text.trim text = "L" ++ String.ofList cs ↔
      Text.trimChars text.toList = 'L' :: cs := by
    rw [← String.toList_inj]
    simp [Text.trim]
  unfold boundOf Bound
  simp only [htrim]
  split
  · rename_i digits hl
    have hnumber : (∃ cs, Text.trimChars text.toList = 'L' :: cs ∧ Spells [[],['+'],['-']] cs n) ↔
        Spells [[],['+'],['-']] digits n := by
      simp [hl]
    rw [hnumber]
    constructor
    · intro h
      split at h
      · cases h
      · rename_i i hi
        obtain ⟨hspells,hlow,hhigh⟩ := integerOf?_eq_some_iff.mp hi
        split at h <;> cases h
        rename_i hn
        have hnat : ((i.toNat : Nat) : Int) = i := Int.toNat_of_nonneg (by omega)
        rw [hnat]
        exact ⟨hspells,by omega⟩
    · intro ⟨hspells,hn⟩
      rw [integerOf?_eq_some_iff.mpr ⟨hspells,by omega,by omega⟩]
      exact if_neg (by omega)
  · rename_i hl
    constructor
    · intro h
      cases h
    · intro ⟨⟨cs,hcs,_⟩,_⟩
      exact absurd hcs (hl cs)

/-- Without a minus in its text, a bound has no minus sign. -/
theorem bound_unsigned_iff {text : String} {n : Int} (h : '-' ∉ text.toList) :
    Bound [[],['+']] text n ↔ Bound [[],['+'],['-']] text n := by
  constructor
  · intro ⟨number,ht,hspells⟩
    cases hspells with
    | number allowed some_digit each =>
      exact ⟨_,ht,.number (List.mem_append_left [['-']] allowed) some_digit each⟩
  · intro ⟨number,ht,hspells⟩
    cases hspells with
    | @number sign digits allowed some_digit each =>
      refine ⟨_,ht,.number ?_ some_digit each⟩
      have hminus : sign ≠ ['-'] := by
        intro hs
        have htrim := congrArg String.toList ht
        simp only [Text.trim,String.toList_ofList,hs] at htrim
        have hmem : '-' ∈ Text.trimChars text.toList := by
          rw [htrim]
          simp
        exact h ((Text.trimChars_inside _).subset hmem)
      simpa [hminus] using allowed

theorem ofChars_eq_ok_iff {position : String} {s : CodeSpan} :
    ofChars position.toList = .ok s ↔ ∃ first last, Writes position s first last := by
  constructor
  · intro h
    unfold ofChars at h
    split at h
    · cases h
    · rename_i path range hcolon
      obtain ⟨hparts,hrange⟩ := Text.cutLast_eq_some_iff.mp hcolon
      split at h
      · cases h
      · rename_i hpath
        split at h
        · cases h
        · rename_i first last hdash
          obtain ⟨rfl,hfirst⟩ := Text.cutFirst_eq_some_iff.mp hdash
          obtain ⟨start,hstart,hrest⟩ := bind_eq_ok_iff.mp h
          obtain ⟨stop,hstop,hspan⟩ := bind_eq_ok_iff.mp hrest
          split at hspan <;> cases hspan
          rename_i hordered
          rw [← String.toList_ofList (l := first)] at hstart hfirst
          rw [← String.toList_ofList (l := last)] at hstop
          obtain ⟨hstart,_⟩ := boundOf_eq_ok_iff.mp hstart
          obtain ⟨hstop,hwithin⟩ := boundOf_eq_ok_iff.mp hstop
          refine ⟨String.ofList first,String.ofList last,?_⟩
          exact {
            parts := String.toList_injective (by simpa using hparts)
            named := by simpa using hpath
            colonless := by simpa using hrange
            dashless := hfirst
            start := (bound_unsigned_iff hfirst).mpr hstart
            stop := hstop
            ordered := Nat.not_lt.mp hordered
            within := hwithin }
  · intro ⟨first,last,h⟩
    have hstart : boundOf first.toList = .ok s.start :=
      boundOf_eq_ok_iff.mpr ⟨(bound_unsigned_iff h.dashless).mp h.start,
        Nat.lt_of_le_of_lt h.ordered h.within⟩
    have hstop : boundOf last.toList = .ok s.stop :=
      boundOf_eq_ok_iff.mpr ⟨h.stop,h.within⟩
    have hcolon : Text.cutLast (· == ':') position.toList =
        some (s.path.toList,first.toList ++ '-' :: last.toList) := by
      refine Text.cutLast_eq_some_iff.mpr ⟨?_,?_⟩
      · rw [h.parts]
        simp
      · simp [h.colonless]
    have hdash : Text.cutFirst (· == '-') (first.toList ++ '-' :: last.toList) =
        some (first.toList,last.toList) :=
      Text.cutFirst_eq_some_iff.mpr ⟨rfl,h.dashless⟩
    have hpath : s.path.toList.isEmpty = false := by simpa using h.named
    simp only [ofChars,hcolon,hpath,hdash,hstart,hstop,bind,Except.bind,Bool.false_eq_true,
      ↓reduceIte]
    rw [if_neg (Nat.not_lt.mpr h.ordered),String.ofList_toList]

theorem parse_eq_ok_iff {position : String} {s : CodeSpan} :
    parse position = .ok s ↔ ∃ first last, Writes position s first last := by
  rw [← ofChars_eq_ok_iff,parse,mapError_eq_ok_iff]

theorem toList_bound (n : Nat) : ("L" ++ toString n).toList = 'L' :: Nat.toDigits 10 n := by
  simp

theorem isDigit_of_mem_toDigits {n : Nat} : ∀ c ∈ Nat.toDigits 10 n, c.isDigit := fun _ hc =>
  Nat.isDigit_of_mem_toDigits (by decide) (by decide) hc

/-- A written bound is the letter and digits. -/
theorem notMem_bound {c : Char} (hl : c ≠ 'L') (hd : ¬ c.isDigit) (n : Nat) :
    c ∉ ("L" ++ toString n).toList := by
  rw [toList_bound]
  intro hm
  rcases List.mem_cons.mp hm with hm | hm
  · exact hl hm
  · exact hd (isDigit_of_mem_toDigits c hm)

theorem trimChars_bound (n : Nat) :
    Text.trimChars ("L" ++ toString n).toList = 'L' :: Nat.toDigits 10 n := by
  rw [toList_bound]
  refine Text.trimChars_of_not_blank (List.forall_mem_cons.mpr ⟨by decide,?_⟩)
  intro c hc
  exact Text.not_blank_of_isDigit (isDigit_of_mem_toDigits c hc)

/-- A number is written as a bound without blanks and sign. -/
theorem bound_toString (n : Nat) : Bound [[],['+']] ("L" ++ toString n) n := by
  have hvalue : signed [] (Nat.ofDigitChars 10 (Nat.toDigits 10 n) 0) = n :=
    congrArg Int.ofNat (Nat.ofDigitChars_toDigits (by decide) (by decide))
  refine ⟨[] ++ Nat.toDigits 10 n,?_,?_⟩
  · rw [Text.trim,trimChars_bound]
    simp
  · rw [← hvalue]
    exact .number List.mem_cons_self Nat.toDigits_ne_nil isDigit_of_mem_toDigits

/-- What a span is written as writes it. -/
theorem writes_toText {s : CodeSpan} (hp : s.path ≠ "") (ho : s.start ≤ s.stop)
    (hw : s.stop < 2 ^ 63) :
    Writes s.toText s ("L" ++ toString s.start) ("L" ++ toString s.stop) := by
  have hcolon := notMem_bound (c := ':') (by decide) (by decide)
  have hdash := notMem_bound (c := '-') (by decide) (by decide)
  exact {
    parts := by
      apply String.toList_injective
      simp [toText]
    named := hp
    colonless := ⟨hcolon _,hcolon _⟩
    dashless := hdash _
    start := bound_toString s.start
    stop := (bound_unsigned_iff (hdash _)).mp (bound_toString s.stop)
    ordered := ho
    within := hw }

theorem parse_toText {s : CodeSpan} (hp : s.path ≠ "") (ho : s.start ≤ s.stop)
    (hw : s.stop < 2 ^ 63) : parse s.toText = .ok s :=
  parse_eq_ok_iff.mpr ⟨_,_,writes_toText hp ho hw⟩

/-- Exactly the texts that write a span are read, each as its span, and any other text is refused for its
form. The length of a span that was read is the difference of its bounds, and what a span is written as
is read back. -/
theorem parse_iff_writes :
    (∀ position s, parse position = .ok s ↔ ∃ first last, Writes position s first last) ∧
    (∀ position, (¬ ∃ s first last, Writes position s first last) →
      ∃ fault : Fault, parse position = .error (.spanFormat position fault.reason)) ∧
    (∀ position s, parse position = .ok s → s.start + s.length = s.stop) ∧
    ∀ s : CodeSpan, s.path ≠ "" → s.start ≤ s.stop → s.stop < 2 ^ 63 → parse s.toText = .ok s := by
  refine ⟨fun _ _ => parse_eq_ok_iff,?_,?_,fun _ => parse_toText⟩
  · intro position hnone
    cases hp : ofChars position.toList with
    | ok s => exact absurd ⟨s,ofChars_eq_ok_iff.mp hp⟩ hnone
    | error fault => exact ⟨fault,by rw [parse,hp]; rfl⟩
  · intro position s h
    obtain ⟨_,_,hw⟩ := parse_eq_ok_iff.mp h
    exact Nat.add_sub_of_le hw.ordered

/-- Colons and dashes of the path stay with it, and a bound may reach the end of the range. -/
theorem parse_iff_writes_colons :
    parse "C:/a-b.java:L7-L9223372036854775807" = .ok ⟨"C:/a-b.java",7,9223372036854775807⟩ :=
  parse_iff_writes.2.2.2 ⟨"C:/a-b.java",7,9223372036854775807⟩ (by decide) (by decide) (by decide)

/-- Blanks, a plus and a negative zero. -/
example : (parse "a:b: L+0 -\tL-0").toOption = some ⟨"a:b",0,0⟩ := by decide +kernel

end CodeSpan

end EndpointAudit
