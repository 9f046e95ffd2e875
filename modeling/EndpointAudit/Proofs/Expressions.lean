import EndpointAudit.Text.Search

namespace EndpointAudit

namespace Text

/-- The first place where a pattern stands in a text, as what is before it and what is behind it. -/
structure FirstAt (pattern cs before after : List Char) : Prop where
  split : cs = before ++ pattern ++ after
  first : ∀ before' after', cs = before' ++ pattern ++ after' → before.length ≤ before'.length

theorem dropPrefix?_eq_some_iff {pattern cs rest : List Char} :
    dropPrefix? pattern cs = some rest ↔ cs = pattern ++ rest := by
  constructor
  · exact eq_append_of_dropPrefix?
  · intro h
    rw [h,dropPrefix?_append]

theorem splitFirst_isSome_iff {pattern cs : List Char} :
    (splitFirst pattern cs).isSome ↔ pattern <:+: cs := by
  induction cs with
  | nil => simp [splitFirst]
  | cons c cs ih =>
    rw [splitFirst,List.infix_cons_iff]
    cases hdrop : dropPrefix? pattern (c :: cs) with
    | some rest =>
      have hbegins : pattern <+: c :: cs := ⟨rest,(dropPrefix?_eq_some_iff.mp hdrop).symm⟩
      simp [hbegins]
    | none =>
      have hbegins : ¬ pattern <+: c :: cs := by
        rintro ⟨rest,hrest⟩
        rw [dropPrefix?_eq_some_iff.mpr hrest.symm] at hdrop
        cases hdrop
      simp [hbegins,ih]

theorem splitFirst_firstAt {pattern cs before after : List Char}
    (h : splitFirst pattern cs = some (before,after)) : FirstAt pattern cs before after := by
  refine ⟨splitFirst_eq h,?_⟩
  induction cs generalizing before with
  | nil =>
    have hnil := splitFirst_eq h
    simp at hnil
    simp [hnil]
  | cons c cs ih =>
    intro before' after' hsplit
    rw [splitFirst] at h
    split at h
    · cases h
      exact Nat.zero_le _
    · rename_i hnone
      obtain ⟨⟨b,a⟩,hs,he⟩ := Option.map_eq_some_iff.mp h
      cases he
      cases before' with
      | nil =>
        rw [List.nil_append] at hsplit
        rw [dropPrefix?_eq_some_iff.mpr hsplit] at hnone
        cases hnone
      | cons d before' =>
        simp only [List.cons_append,List.cons.injEq] at hsplit
        simpa using ih hs before' after' hsplit.2

theorem FirstAt.unique {pattern cs before after before' after' : List Char}
    (h : FirstAt pattern cs before after) (h' : FirstAt pattern cs before' after') :
    before = before' ∧ after = after' := by
  have hlength : before.length = before'.length :=
    Nat.le_antisymm (h.first _ _ h'.split) (h'.first _ _ h.split)
  have hsame := h.split.symm.trans h'.split
  simp only [List.append_assoc] at hsame
  obtain ⟨hbefore,hrest⟩ := List.append_inj hsame hlength
  exact ⟨hbefore,List.append_cancel_left hrest⟩

theorem FirstAt.before_prefix {pattern cs before after : List Char}
    (h : FirstAt pattern cs before after) : before <+: cs :=
  ⟨pattern ++ after,by simp [h.split]⟩

theorem FirstAt.after_suffix {pattern cs before after : List Char}
    (h : FirstAt pattern cs before after) : after <:+ cs :=
  ⟨before ++ pattern,h.split.symm⟩

/-- What is behind a later place is behind the first one. -/
theorem FirstAt.suffix {pattern cs before after before' after' : List Char}
    (h : FirstAt pattern cs before after) (hsplit : cs = before' ++ pattern ++ after') :
    after' <:+ after := by
  have hlength := congrArg List.length (h.split.symm.trans hsplit)
  have hfirst := h.first _ _ hsplit
  simp only [List.length_append] at hlength
  exact List.suffix_of_suffix_length_le (hsplit ▸ List.suffix_append _ _)
    (h.split ▸ List.suffix_append _ _) (by omega)

theorem FirstAt.free {pattern cs before after : List Char} (h : FirstAt pattern cs before after)
    (hp : pattern ≠ []) : ¬ pattern <:+: before := by
  rintro ⟨lead,trail,rfl⟩
  have hfirst := h.first lead (trail ++ pattern ++ after) (by simp [h.split])
  have hlength := List.length_pos_iff.mpr hp
  simp only [List.length_append] at hfirst
  omega

theorem splitFirst_eq_some_iff {pattern cs before after : List Char} :
    splitFirst pattern cs = some (before,after) ↔ FirstAt pattern cs before after := by
  refine ⟨splitFirst_firstAt,fun h => ?_⟩
  have hsome : (splitFirst pattern cs).isSome :=
    splitFirst_isSome_iff.mpr ⟨before,after,h.split.symm⟩
  obtain ⟨⟨b,a⟩,hs⟩ := Option.isSome_iff_exists.mp hsome
  obtain ⟨rfl,rfl⟩ := h.unique (splitFirst_firstAt hs)
  exact hs

/-- Characters that do not stand in a pattern do not begin it. -/
theorem infix_append_iff {pattern skipped rest : List Char} (hp : pattern ≠ [])
    (h : ∀ c ∈ skipped, c ∉ pattern) : pattern <:+: skipped ++ rest ↔ pattern <:+: rest := by
  induction skipped with
  | nil => rfl
  | cons c skipped ih =>
    obtain ⟨hc,hskipped⟩ := List.forall_mem_cons.mp h
    rw [List.cons_append,List.infix_cons_iff,ih hskipped,or_iff_right]
    obtain ⟨p,pattern,rfl⟩ := List.exists_cons_of_ne_nil hp
    rintro ⟨rest',he⟩
    simp only [List.cons_append,List.cons.injEq] at he
    exact hc (he.1 ▸ List.mem_cons_self)

end Text

namespace Expression

/-- How many characters of a class a part takes: just one, at most one, as many as possible or as few as
possible. -/
inductive Quantifier
  | once
  | optional
  | greedy
  | lazy

structure Part where
  quantifier : Quantifier
  within : Char → Bool

def greedyWays (p : Char → Bool) : List Char → List (List Char × List Char)
  | [] => [([],[])]
  | c :: cs =>
    if p c then (greedyWays p cs).map (fun w => (c :: w.1,w.2)) ++ [([],c :: cs)]
    else [([],c :: cs)]

def lazyWays (p : Char → Bool) : List Char → List (List Char × List Char)
  | [] => [([],[])]
  | c :: cs =>
    ([],c :: cs) :: if p c then (lazyWays p cs).map fun w => (c :: w.1,w.2) else []

/-- What a part can take from the start of a text, with what is left of the text. The way that is tried
first stands first. -/
def Part.ways (part : Part) (cs : List Char) : List (List Char × List Char) :=
  match part.quantifier,cs with
  | .once,[] => []
  | .once,c :: cs => if part.within c then [([c],cs)] else []
  | .optional,[] => [([],[])]
  | .optional,c :: cs =>
    if part.within c then [([c],cs),([],c :: cs)] else [([],c :: cs)]
  | .greedy,cs => greedyWays part.within cs
  | .lazy,cs => lazyWays part.within cs

/-- What the parts of an expression can take one after the other. A later part is tried in all its ways
before an earlier one is tried in another way. -/
def ways : List Part → List Char → List (List (List Char))
  | [],_ => [[]]
  | part :: parts,cs => (part.ways cs).flatMap fun w => (ways parts w.2).map (w.1 :: ·)

/-- What the parts take at the leftmost place at which the expression matches. -/
def find (parts : List Part) : List Char → Option (List (List Char))
  | [] => (ways parts []).head?
  | c :: cs => (ways parts (c :: cs)).head?.or (find parts cs)

def literal (pattern : List Char) : List Part :=
  pattern.map fun c => ⟨.once,(· == c)⟩

variable {parts : List Part} {part : Part} {pattern : List Char}

theorem head?_ways (part : Part) (parts : List Part) (cs : List Char) :
    (ways (part :: parts) cs).head? =
      (part.ways cs).findSome? fun w => (ways parts w.2).head?.map (w.1 :: ·) := by
  simp [ways,List.head?_flatMap]

theorem head?_ways_literal (pattern : List Char) (parts : List Part) (cs : List Char) :
    (ways (literal pattern ++ parts) cs).head? =
      (Text.dropPrefix? pattern cs).bind fun rest =>
        (ways parts rest).head?.map (pattern.map (fun c => [c]) ++ ·) := by
  induction pattern generalizing cs with
  | nil => simp [literal,Text.dropPrefix?]
  | cons p pattern ih =>
    rw [literal,List.map_cons,List.cons_append,head?_ways]
    cases cs with
    | nil => rfl
    | cons c cs =>
      by_cases hc : c = p
      · have hrest := ih cs
        rw [literal] at hrest
        subst hc
        simp [Part.ways,Text.dropPrefix?,hrest,Function.comp_def,Option.map_bind]
      · simp [Part.ways,Text.dropPrefix?,hc,Ne.symm hc]

/-- A lazy part takes what stands before the first place of the pattern behind it. -/
theorem head?_ways_lazy (pattern cs : List Char) :
    (ways (⟨.lazy,fun _ => true⟩ :: literal pattern) cs).head? =
      (Text.splitFirst pattern cs).map fun found => found.1 :: pattern.map fun c => [c] := by
  have hliteral (rest : List Char) : (ways (literal pattern) rest).head? =
      (Text.dropPrefix? pattern rest).map fun _ => pattern.map fun c => [c] := by
    have h := head?_ways_literal pattern [] rest
    rw [List.append_nil] at h
    rw [h]
    cases Text.dropPrefix? pattern rest <;> simp [ways]
  rw [head?_ways]
  simp only [Part.ways,hliteral]
  induction cs with
  | nil =>
    cases pattern <;> simp [lazyWays,Text.splitFirst,Text.dropPrefix?]
  | cons c cs ih =>
    rw [lazyWays,List.findSome?_cons,Text.splitFirst]
    cases hdrop : Text.dropPrefix? pattern (c :: cs) with
    | some rest => simp
    | none =>
      simp only [Option.map_none,if_true,List.findSome?_map,Function.comp_def]
      have hcons := congrArg (Option.map fun taken : List (List Char) =>
        (c :: taken.headD []) :: taken.tail) ih
      simp only [List.map_findSome?,Option.map_map,Function.comp_def] at hcons
      simpa [Function.comp_def] using hcons

theorem greedyWays_head? (p : Char → Bool) (cs : List Char) :
    (greedyWays p cs).head? = some (cs.takeWhile p,cs.dropWhile p) := by
  induction cs with
  | nil => rfl
  | cons c cs ih =>
    rw [greedyWays]
    split <;> simp_all

theorem mem_greedyWays {p : Char → Bool} {cs : List Char} {w : List Char × List Char}
    (h : w ∈ greedyWays p cs) : cs = w.1 ++ w.2 ∧ ∀ c ∈ w.1, p c := by
  induction cs generalizing w with
  | nil => simp_all [greedyWays]
  | cons c cs ih =>
    rw [greedyWays] at h
    split at h
    · rename_i hc
      simp only [List.mem_append,List.mem_map,List.mem_singleton] at h
      rcases h with ⟨w',hw',rfl⟩ | rfl
      · obtain ⟨hsplit,heach⟩ := ih hw'
        exact ⟨congrArg (c :: ·) hsplit,List.forall_mem_cons.mpr ⟨hc,heach⟩⟩
      · simp
    · simp_all

/-- A part of which nothing needs to be there, but which takes what it can. -/
def Part.Yielding (part : Part) : Prop :=
  part.quantifier = .optional ∨ part.quantifier = .greedy

theorem Part.Yielding.mem_ways (hy : part.Yielding) {cs : List Char} {w : List Char × List Char}
    (h : w ∈ part.ways cs) : cs = w.1 ++ w.2 ∧ ∀ c ∈ w.1, part.within c := by
  obtain ⟨quantifier,within⟩ := part
  rcases hy with rfl | rfl
  · cases cs with
    | nil => simp_all [Part.ways]
    | cons c cs =>
      simp only [Part.ways] at h
      split at h
      · simp only [List.mem_cons,List.not_mem_nil,or_false] at h
        rcases h with rfl | rfl <;> simp_all
      · simp_all
  · exact mem_greedyWays h

/-- An expression that matches at the start of a text just if a pattern stands somewhere in it. -/
def Finds (pattern : List Char) (parts : List Part) : Prop :=
  ∀ cs, (ways parts cs).head?.isSome ↔ pattern <:+: cs

theorem Part.Yielding.exists_first (hy : part.Yielding) (cs : List Char) :
    ∃ w, (part.ways cs).head? = some w := by
  obtain ⟨quantifier,within⟩ := part
  rcases hy with rfl | rfl
  · cases cs with
    | nil => exact ⟨_,rfl⟩
    | cons c cs =>
      simp only [Part.ways]
      split <;> exact ⟨_,rfl⟩
  · exact ⟨_,greedyWays_head? within cs⟩

/-- A yielding part that takes no character of a pattern. -/
structure Part.Clear (part : Part) (pattern : List Char) : Prop where
  yielding : part.Yielding
  free : ∀ c, part.within c → c ∉ pattern

section passed

variable (h : Finds pattern parts) (hc : part.Clear pattern) (hp : pattern ≠ [])

include h hc hp

/-- The pattern is found behind each of the ways of such a part, or behind none of them. -/
theorem Finds.behind {cs : List Char} {w : List Char × List Char} (hw : w ∈ part.ways cs) :
    (ways parts w.2).head?.isSome ↔ pattern <:+: cs := by
  obtain ⟨hsplit,heach⟩ := hc.yielding.mem_ways hw
  rw [h w.2,hsplit,Text.infix_append_iff hp fun c hm => hc.free c (heach c hm)]

/-- So the first way is the one that counts. -/
theorem Finds.head?_ways {cs : List Char} {w : List Char × List Char}
    (hw : (part.ways cs).head? = some w) :
    (ways (part :: parts) cs).head? = (ways parts w.2).head?.map (w.1 :: ·) := by
  obtain ⟨others,hways⟩ := List.head?_eq_some_iff.mp hw
  rw [Expression.head?_ways,hways,List.findSome?_cons]
  cases hhead : (ways parts w.2).head? with
  | some taken => rfl
  | none =>
    refine List.findSome?_eq_none_iff.mpr fun w' hw' => ?_
    have hfirst := h.behind hc hp (hways ▸ List.mem_cons_self : w ∈ part.ways cs)
    have hlater := h.behind hc hp (hways ▸ List.mem_cons_of_mem _ hw' : w' ∈ part.ways cs)
    rw [← hfirst,hhead] at hlater
    simpa using hlater

theorem Finds.cons : Finds pattern (part :: parts) := by
  intro cs
  obtain ⟨w,hw⟩ := hc.yielding.exists_first cs
  rw [h.head?_ways hc hp hw,Option.isSome_map]
  exact h.behind hc hp (List.mem_of_mem_head? hw)

end passed

end Expression

end EndpointAudit
