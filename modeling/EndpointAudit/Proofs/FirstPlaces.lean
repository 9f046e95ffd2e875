import Mathlib.Data.List.Basic

namespace EndpointAudit

variable {α β : Type} {xs : List α} {g : α → Nat → List β} {R : β → β → Prop}

/-- A thing that is there already is not counted again. -/
theorem eraseDups_concat [BEq α] [LawfulBEq α] (xs : List α) (x : α) :
    (xs ++ [x]).eraseDups = if x ∈ xs then xs.eraseDups else xs.eraseDups ++ [x] := by
  by_cases hx : x ∈ xs <;> simp [List.eraseDups_append,List.removeAll,List.eraseDups_cons,hx]

/-- If things stand at ascending places, then without repetitions they are in the order of their first
places. -/
theorem eraseDups_ordered [BEq α] [LawfulBEq α] {placed : List (α × β)}
    (h : placed.Pairwise fun e e' => R e.2 e'.2) :
    (placed.map Prod.fst).eraseDups.Pairwise fun a b =>
      ∃ p, (a,p) ∈ placed ∧ ∀ q, (b,q) ∈ placed → R p q := by
  match placed with
  | [] => simp
  | (a,p) :: placed =>
    obtain ⟨hfirst,hrest⟩ := List.pairwise_cons.mp h
    have hothers : (placed.map Prod.fst).filter (fun b => !b == a) =
        (placed.filter fun e => !e.1 == a).map Prod.fst := List.filter_map
    have hother {b : α} (hb : b ∈ ((placed.filter fun e => !e.1 == a).map Prod.fst).eraseDups) :
        b ≠ a := by
      rw [List.mem_eraseDups,← hothers] at hb
      simpa using (List.mem_filter.mp hb).2
    have hbehind {b : α} {q : β} (hb : b ≠ a) (hq : (b,q) ∈ (a,p) :: placed) : (b,q) ∈ placed := by
      rcases List.mem_cons.mp hq with he | hq
      · exact absurd (congrArg Prod.fst he) hb
      · exact hq
    rw [List.map_cons,List.eraseDups_cons,hothers,List.pairwise_cons]
    constructor
    · intro b hb
      exact ⟨p,List.mem_cons_self,fun q hq => hfirst _ (hbehind (hother hb) hq)⟩
    · refine (eraseDups_ordered (hrest.filter _)).imp_of_mem ?_
      intro b c _ hc ⟨q,hq,hleast⟩
      refine ⟨q,List.mem_cons_of_mem _ (List.mem_filter.mp hq).1,?_⟩
      intro r hr
      refine hleast r (List.mem_filter.mpr ⟨hbehind (hother hc) hr,?_⟩)
      simpa using hother hc
termination_by placed.length
decreasing_by exact Nat.lt_succ_of_le (List.length_filter_le _ _)

theorem zipIdx_ordered (xs : List α) : xs.zipIdx.Pairwise fun e e' => e.2 < e'.2 := by
  rw [← List.pairwise_map,List.zipIdx_map_snd]
  exact List.pairwise_lt_range'

/-- Without repetitions, a thing comes before another if it stands before every place of the other. -/
theorem eraseDups_firstPlaces [BEq α] [LawfulBEq α] (xs : List α) :
    xs.eraseDups.Pairwise fun a b =>
      ∃ i : Nat, xs[i]? = some a ∧ ∀ j : Nat, xs[j]? = some b → i < j := by
  have hordered := eraseDups_ordered (zipIdx_ordered xs)
  simpa only [List.zipIdx_map_fst,List.mk_mem_zipIdx_iff_getElem?] using hordered

/-- What the items of a list give, by their numbers. -/
def numbered (xs : List α) (g : α → Nat → List β) : List β :=
  xs.zipIdx.flatMap fun e => g e.1 e.2

theorem mem_numbered {b : β} : b ∈ numbered xs g ↔ ∃ i x, xs[i]? = some x ∧ b ∈ g x i := by
  simp only [numbered,List.mem_flatMap,Prod.exists,List.mk_mem_zipIdx_iff_getElem?]
  exact exists_comm

theorem map_numbered {γ : Type} {f : α → List γ} {h : β → γ} (hg : ∀ x i, (g x i).map h = f x) :
    (numbered xs g).map h = xs.flatMap f := by
  simp only [numbered,List.map_flatMap,hg]
  rw [← List.flatMap_map,List.zipIdx_map_fst]

theorem numbered_pairwise {S : β → β → Prop} (hin : ∀ x i, (g x i).Pairwise S)
    (hout : ∀ {x y i j}, i < j → ∀ b ∈ g x i, ∀ c ∈ g y j, S b c) : (numbered xs g).Pairwise S := by
  exact List.pairwise_flatMap.mpr ⟨fun e _ => hin e.1 e.2,(zipIdx_ordered xs).imp hout⟩

end EndpointAudit
