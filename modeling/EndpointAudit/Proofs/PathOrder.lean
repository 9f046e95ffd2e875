import EndpointAudit.Proofs.Spelling
import Mathlib.Data.List.Lex
import Mathlib.Data.String.Basic

namespace EndpointAudit.Path

variable {path : String} {as bs ns : List String} {a b c : String}

/-- Names stand in the order of lists. -/
theorem namesBefore_iff : namesBefore as bs = true ↔ ¬ bs < as := by
  induction as generalizing bs with
  | nil => simp [namesBefore]
  | cons a as ih =>
    cases bs with
    | nil => simp [namesBefore]
    | cons b bs =>
      rw [namesBefore,List.cons_lt_cons_iff,not_or]
      split
      · rename_i hlt
        simp [String.lt_asymm hlt,Ne.symm (String.ne_of_lt hlt)]
      · rename_i hlt
        split
        · rename_i he
          simp [ih,he]
        · rename_i hne
          have hgt : b < a := lt_of_le_of_ne (not_lt.mp hlt) (Ne.symm hne)
          simp [hgt]

theorem before_iff : before a b = true ↔ isAbsolute a = true ∧ isAbsolute b = false ∨
    isAbsolute a = isAbsolute b ∧ ¬ components b < components a := by
  unfold before
  cases isAbsolute a <;> cases isAbsolute b <;> simp [namesBefore_iff]

theorem before_trans (hab : before a b = true) (hbc : before b c = true) : before a c = true := by
  rw [before_iff] at hab hbc ⊢
  rcases hab with ⟨ha,hb⟩ | ⟨hab,hle⟩
  · rcases hbc with ⟨hb',_⟩ | ⟨hbc,_⟩
    · rw [hb] at hb'
      cases hb'
    · exact .inl ⟨ha,hbc ▸ hb⟩
  · rcases hbc with ⟨hb,hc⟩ | ⟨hbc,hle'⟩
    · exact .inl ⟨hab ▸ hb,hc⟩
    · exact .inr ⟨hab.trans hbc,not_lt.mpr (le_trans (not_lt.mp hle) (not_lt.mp hle'))⟩

theorem before_total (a b : String) : before a b = true ∨ before b a = true := by
  rw [before_iff,before_iff]
  have htotal := le_total (components a) (components b)
  cases isAbsolute a <;> cases isAbsolute b <;> simp [not_lt,htotal]

/-- What names have in common at their start does not count. -/
theorem append_lt_append_iff (start as bs : List String) : start ++ as < start ++ bs ↔ as < bs := by
  induction start with
  | nil => rfl
  | cons s start ih => simp [ih]

/-- Only the first piece of a path is looked at in its own way. -/
theorem components_eq {piece : String} {rest : List String} (h : pieces path = piece :: rest) :
    components path = (if piece = "." then ["."] else [piece].filter (· != "")) ++
      rest.filter fun p => p != "" && p != "." := by
  unfold components
  rw [h]
  split
  · rename_i heq
    obtain ⟨rfl,rfl⟩ := List.cons.inj heq
    rfl
  · rename_i hdot
    have hne : piece ≠ "." := fun he => hdot rest (he ▸ rfl)
    have hb : (piece != ".") = true := by simpa using hne
    rw [if_neg hne,← List.singleton_append,List.filter_append]
    simp only [List.filter_cons,List.filter_nil,hb,Bool.and_true]

/-- A name behind a path is one more of its names, be there a slash at the end of the path or not. -/
theorem components_join (hp : path ≠ "") (ha : Plain a) :
    components (join path a) = components path ++ [a] := by
  obtain ⟨ps,tail,hpath,htail,hjoin⟩ := join_slashless hp ha.slashless
  have hone : [a].filter (fun p => p != "" && p != ".") = [a] := by simp [ha.named,ha.not_here]
  have hrest : tail.filter (fun p => p != "" && p != ".") = [] := by rcases htail with rfl | rfl <;> rfl
  cases ps with
  | nil =>
    have hnone : components path = [] := by
      unfold components
      rcases htail with rfl | rfl <;> rw [hpath] <;> rfl
    rw [components_eq hjoin,hnone,if_neg ha.not_here]
    simp [ha.named]
  | cons p ps =>
    rw [List.cons_append] at hpath hjoin
    rw [components_eq hjoin,components_eq hpath,List.filter_append,List.filter_append,hone,hrest,
      List.append_nil,List.append_assoc]

theorem components_foldl (hp : path ≠ "") (hns : ∀ n ∈ ns, Plain n) :
    components (ns.foldl join path) = components path ++ ns := by
  induction ns generalizing path with
  | nil => rw [List.foldl_nil,List.append_nil]
  | cons n ns ih =>
    have hn := hns n List.mem_cons_self
    rw [List.foldl_cons,ih (open_join path hn.proper).ne_empty fun m hm => hns m (List.mem_cons_of_mem _ hm),
      components_join hp hn,List.append_assoc,List.singleton_append]

/-- Children of one directory stand in the order of their names. -/
theorem before_join (hp : path ≠ "") (ha : Plain a) (hb : Plain b) :
    before (join path a) (join path b) = decide (a ≤ b) := by
  have hone : [b] < [a] ↔ b < a := by simp [List.cons_lt_cons_iff]
  rw [Bool.eq_iff_iff,before_iff,isAbsolute_join path ha.slashless,isAbsolute_join path hb.slashless,
    components_join hp ha,components_join hp hb,append_lt_append_iff,hone,not_lt]
  simp

end EndpointAudit.Path
