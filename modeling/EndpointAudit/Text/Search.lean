namespace EndpointAudit.Text

/-- What follows `pre` in a list that starts with it. -/
def dropPrefix? [DecidableEq α] : List α → List α → Option (List α)
  | [],cs => some cs
  | _ :: _,[] => none
  | p :: pre,c :: cs => if p = c then dropPrefix? pre cs else none

theorem dropPrefix?_append [DecidableEq α] (pre cs : List α) :
    dropPrefix? pre (pre ++ cs) = some cs := by
  induction pre with
  | nil => rfl
  | cons p pre ih => rw [List.cons_append,dropPrefix?,if_pos rfl,ih]

theorem eq_append_of_dropPrefix? [DecidableEq α] {pre cs rest : List α}
    (h : dropPrefix? pre cs = some rest) : cs = pre ++ rest := by
  induction pre generalizing cs with
  | nil => exact Option.some.inj h
  | cons p pre ih =>
    cases cs with
    | nil => simp [dropPrefix?] at h
    | cons c cs =>
      simp only [dropPrefix?] at h
      split at h
      · next hp => simp [ih h,hp]
      · simp at h

/-- Splits at the first occurrence of `pattern`: what stands before it and what stands after it. -/
def splitFirst (pattern : List Char) : List Char → Option (List Char × List Char)
  | [] => if pattern.isEmpty then some ([],[]) else none
  | c :: cs =>
    match dropPrefix? pattern (c :: cs) with
    | some rest => some ([],rest)
    | none => (splitFirst pattern cs).map fun (before,after) => (c :: before,after)

theorem splitFirst_eq {pattern cs before after : List Char}
    (h : splitFirst pattern cs = some (before,after)) : cs = before ++ pattern ++ after := by
  induction cs generalizing before with
  | nil =>
    simp only [splitFirst] at h
    split at h <;> simp_all
  | cons c cs ih =>
    simp only [splitFirst] at h
    split at h
    · next rest hp =>
      obtain ⟨rfl,rfl⟩ := Prod.mk.injEq .. ▸ Option.some.inj h
      simpa using eq_append_of_dropPrefix? hp
    · obtain ⟨⟨b,a⟩,hs,he⟩ := Option.map_eq_some_iff.mp h
      obtain ⟨rfl,rfl⟩ := Prod.mk.injEq .. ▸ he
      simp [ih hs]

def contains (s pattern : String) : Bool :=
  (splitFirst pattern.toList s.toList).isSome

/-- Replaces every occurrence of a pattern that is not empty. The number of characters bounds the
number of occurrences. -/
def replaceIn (pattern by_ : List Char) : Nat → List Char → List Char
  | 0,cs => cs
  | fuel + 1,cs =>
    match splitFirst pattern cs with
    | none => cs
    | some (before,after) => before ++ by_ ++ replaceIn pattern by_ fuel after

def replace (s pattern by_ : String) : String :=
  String.ofList (replaceIn pattern.toList by_.toList s.toList.length s.toList)

/-- Splits at the first character that satisfies `p`, which belongs to neither side. -/
def cutFirst (p : Char → Bool) : List Char → Option (List Char × List Char)
  | [] => none
  | c :: cs => if p c then some ([],cs) else (cutFirst p cs).map fun (a,b) => (c :: a,b)

/-- Splits at the last character that satisfies `p`, which belongs to neither side. -/
def cutLast (p : Char → Bool) : List Char → Option (List Char × List Char)
  | [] => none
  | c :: cs =>
    match cutLast p cs with
    | some (a,b) => some (c :: a,b)
    | none => if p c then some ([],cs) else none

section cuts

variable {c : Char} {cs before after : List Char}

theorem cutFirst_eq_some_iff :
    cutFirst (· == c) cs = some (before,after) ↔ cs = before ++ c :: after ∧ c ∉ before := by
  constructor
  · intro h
    induction cs generalizing before with
    | nil => simp [cutFirst] at h
    | cons d cs ih =>
      simp only [cutFirst] at h
      split at h
      · next hd =>
        obtain ⟨rfl,rfl⟩ := Prod.mk.injEq .. ▸ Option.some.inj h
        simpa using hd
      · next hd =>
        have hne : c ≠ d := fun he => hd (by simp [he])
        obtain ⟨⟨b,a⟩,hs,he⟩ := Option.map_eq_some_iff.mp h
        obtain ⟨rfl,rfl⟩ := Prod.mk.injEq .. ▸ he
        obtain ⟨rfl,hb⟩ := ih hs
        exact ⟨rfl,List.not_mem_cons_of_ne_of_not_mem hne hb⟩
  · intro ⟨hcs,hc⟩
    subst hcs
    induction before with
    | nil => simp [cutFirst]
    | cons d before ih =>
      simp only [List.mem_cons,not_or] at hc
      simp [cutFirst,Ne.symm hc.1,ih hc.2]

theorem cutLast_eq_none_iff : cutLast (· == c) cs = none ↔ c ∉ cs := by
  induction cs with
  | nil => simp [cutLast]
  | cons d cs ih =>
    rw [cutLast,List.mem_cons,not_or,← ih,eq_comm (a := c)]
    cases cutLast (· == c) cs <;> simp

theorem cutLast_eq_some_iff :
    cutLast (· == c) cs = some (before,after) ↔ cs = before ++ c :: after ∧ c ∉ after := by
  constructor
  · intro h
    induction cs generalizing before with
    | nil => simp [cutLast] at h
    | cons d cs ih =>
      simp only [cutLast] at h
      split at h
      · next b a hs =>
        obtain ⟨rfl,rfl⟩ := Prod.mk.injEq .. ▸ Option.some.inj h
        obtain ⟨rfl,ha⟩ := ih hs
        exact ⟨rfl,ha⟩
      · next hs =>
        split at h
        · next hd =>
          obtain ⟨rfl,rfl⟩ := Prod.mk.injEq .. ▸ Option.some.inj h
          exact ⟨by simpa using hd,cutLast_eq_none_iff.mp hs⟩
        · simp at h
  · intro ⟨hcs,hc⟩
    subst hcs
    induction before with
    | nil => simp [cutLast,cutLast_eq_none_iff.mpr hc]
    | cons d before ih => simp [cutLast,ih]

end cuts

end EndpointAudit.Text
