import EndpointAudit.Proofs.Replies

namespace EndpointAudit.Completion

variable {completion : String} {completions completions' : List String}
  {members : List (String × Json)}

theorem object?_eq_some_iff :
    object? completion = some members ↔ Json.parse (payload completion) = .ok (.object members) := by
  unfold object?
  split
  · rename_i h
    simp [h]
  · rename_i hother
    simp only [reduceCtorEq,false_iff]
    exact hother members

/-- An object is never incomplete. -/
theorem verdictOf_ne_incomplete (members : List (String × Json)) :
    verdictOf members ≠ .incomplete := by
  unfold verdictOf
  split <;> decide

theorem verdict_ne_incomplete_iff :
    verdict completion ≠ .incomplete ↔
      ∃ members, Json.parse (payload completion) = .ok (.object members) := by
  simp only [← object?_eq_some_iff]
  unfold verdict
  cases object? completion with
  | none => simp
  | some members => simp [verdictOf_ne_incomplete]

theorem verdict_eq_success_iff :
    verdict completion = .success ↔ ∃ members, Json.parse (payload completion) = .ok (.object members) ∧
      members.lookup "status" = some (.text "success") := by
  simp only [← object?_eq_some_iff]
  unfold verdict
  cases object? completion with
  | none => simp
  | some members => simp [(verdictOf_eq members).1]

theorem tally_parsed (completions : List String) :
    (tally completions).parsed = completions.countP (verdict · ≠ .incomplete) := by
  simp only [tally,List.countP_map]
  refine List.countP_congr ?_
  intro completion _
  simp

theorem tally_successes (completions : List String) :
    (tally completions).successes = completions.countP (verdict · = .success) := by
  simp only [tally,List.count_eq_countP,List.countP_map]
  refine List.countP_congr ?_
  intro completion _
  simp

/-- The order of completions does not matter for their tally. -/
theorem tally_perm (h : completions.Perm completions') : tally completions = tally completions' := by
  unfold tally
  simp only [h.length_eq,(h.map verdict).countP_eq,(h.map verdict).count_eq]

/-- The counts after one more completion, which is read once. -/
def counted (t : Tally) (completion : String) : Tally :=
  match object? completion with
  | none => { t with collected := t.collected + 1 }
  | some members =>
    { t with
      collected := t.collected + 1
      parsed := t.parsed + 1
      successes := if verdictOf members = .success then t.successes + 1 else t.successes }

theorem counted_eq (t : Tally) (completion : String) :
    counted t completion =
      { t with
        collected := t.collected + 1
        parsed := t.parsed + if verdict completion ≠ .incomplete then 1 else 0
        successes := t.successes + if verdict completion = .success then 1 else 0 } := by
  unfold counted verdict
  cases object? completion with
  | none => simp
  | some members =>
    cases hv : verdictOf members with
    | success | fail => simp [hv]
    | incomplete => exact absurd hv (verdictOf_ne_incomplete members)

/-- One pass over completions, from the counts that there are so far. -/
theorem foldl_counted (t : Tally) (completions : List String) :
    completions.foldl counted t =
      { t with
        collected := t.collected + completions.length
        parsed := t.parsed + completions.countP (verdict · ≠ .incomplete)
        successes := t.successes + completions.countP (verdict · = .success) } := by
  induction completions generalizing t with
  | nil => rfl
  | cons completion completions ih =>
    rw [List.foldl_cons,ih,counted_eq]
    simp only [List.length_cons,List.countP_cons,decide_eq_true_eq,← Nat.add_assoc,Nat.add_right_comm]

/-- A tally is what one pass counts, with the rate worked out at the end. -/
theorem tally_eq_foldl (completions : List String) :
    let t := completions.foldl counted {}
    tally completions = { t with rate := rate? t.successes t.parsed } := by
  intro t
  have ht : t = completions.foldl counted {} := rfl
  rw [foldl_counted,← tally_parsed,← tally_successes] at ht
  simp only [Nat.zero_add] at ht
  rw [ht]
  rfl

/-- The figures over completions agree with the verdicts of the single ones, although one pass reads them
all: what could be read are the completions that hold an object, and successes are those of them whose
status says so. The counts of two batches add up to those of both together, and the order of the
completions shows in no figure, the rate included. -/
theorem tally_exact (xs ys : List String) :
    (tally (xs ++ ys)).collected = (tally xs).collected + (tally ys).collected ∧
    (tally (xs ++ ys)).parsed = (tally xs).parsed + (tally ys).parsed ∧
    (tally (xs ++ ys)).successes = (tally xs).successes + (tally ys).successes ∧
    (∀ zs, zs.Perm xs → tally zs = tally xs) ∧
    (let t := xs.foldl counted {}; tally xs = { t with rate := rate? t.successes t.parsed }) ∧
    (tally xs).collected = xs.length ∧
    (tally xs).parsed = xs.countP (verdict · ≠ .incomplete) ∧
    (tally xs).successes = xs.countP (verdict · = .success) ∧
    (∀ s, verdict s ≠ .incomplete ↔ ∃ members, Json.parse (payload s) = .ok (.object members)) ∧
    (∀ s, verdict s = .success ↔ ∃ members, Json.parse (payload s) = .ok (.object members) ∧
      members.lookup "status" = some (.text "success")) ∧
    (tally xs).successes ≤ (tally xs).parsed ∧ (tally xs).parsed ≤ (tally xs).collected := by
  refine ⟨List.length_append,?_,?_,fun zs => tally_perm,tally_eq_foldl xs,rfl,tally_parsed xs,
    tally_successes xs,fun _ => verdict_ne_incomplete_iff,fun _ => verdict_eq_success_iff,?_,?_⟩
  · simp only [tally_parsed,List.countP_append]
  · simp only [tally_successes,List.countP_append]
  · rw [tally_parsed,tally_successes]
    refine List.countP_mono_left ?_
    intro s _ hs
    rw [decide_eq_true_eq] at hs
    simp [hs]
  · rw [tally_parsed]
    exact List.countP_le_length

/-- A success in a block, a text that is no JSON, and an object without a status. -/
theorem tally_exact_mixed :
    let xs := ["\x60\x60\x60json\n\x7b\"status\":\"success\"\x7d\n\x60\x60\x60","success","\x7b\x7d"]
    xs.reverse.Perm xs ∧ tally xs.reverse = tally xs ∧ (tally xs).collected = 3 ∧
      (tally xs).parsed = 2 ∧ (tally xs).successes = 1 := by
  intro xs
  have hperm : xs.reverse.Perm xs := List.reverse_perm xs
  obtain ⟨_,_,_,horder,_,hcollected,hparsed,hsuccesses,_⟩ := tally_exact xs []
  refine ⟨hperm,horder _ hperm,hcollected,?_,?_⟩
  · rw [hparsed]
    decide +kernel
  · rw [hsuccesses]
    decide +kernel

end EndpointAudit.Completion
