import EndpointAudit.Context
import Mathlib.Data.List.Nodup
import Mathlib.Data.List.Perm.Basic

namespace EndpointAudit.Context

def Ascending (fs : List Finding) : Prop :=
  fs.Pairwise fun f g => f.index < g.index

theorem Ascending.index_nodup {fs : List Finding} (h : Ascending fs) :
    (fs.map Finding.index).Nodup :=
  List.pairwise_map.mpr (h.imp Nat.ne_of_lt)

/-- Ascending findings are known by their members. -/
theorem Ascending.ext {fs gs : List Finding} (hf : Ascending fs) (hg : Ascending gs)
    (hm : ∀ f, f ∈ fs ↔ f ∈ gs) : fs = gs := by
  have hp := (List.perm_ext_iff_of_nodup hf.index_nodup.of_map hg.index_nodup.of_map).mpr hm
  refine hp.eq_of_pairwise ?_ hf hg
  intro f g _ _ hfg hgf
  exact absurd hfg (Nat.lt_asymm hgf)

theorem mem_insertFinding {f g : Finding} {fs : List Finding} (h : Ascending fs) :
    g ∈ insertFinding f fs ↔ g ∈ fs ∨ g = f ∧ ∀ d ∈ fs, d.index ≠ f.index := by
  induction fs with
  | nil => simp [insertFinding]
  | cons d fs ih =>
    obtain ⟨hd,ht⟩ := List.pairwise_cons.mp h
    unfold insertFinding
    split
    · rename_i hlt
      have hn : ∀ e ∈ d :: fs, e.index ≠ f.index := by
        intro e he
        rcases List.mem_cons.mp he with rfl | he
        · omega
        · have := hd e he
          omega
      rw [List.mem_cons]
      constructor
      · intro hx
        rcases hx with rfl | hm
        · exact .inr ⟨rfl,hn⟩
        · exact .inl hm
      · intro hx
        rcases hx with hm | ⟨rfl,_⟩
        · exact .inr hm
        · exact .inl rfl
    · split
      · rename_i heq
        constructor
        · exact .inl
        · intro hx
          rcases hx with hm | ⟨_,hn⟩
          · exact hm
          · exact absurd heq.symm (hn d List.mem_cons_self)
      · rename_i hlt hne
        rw [List.mem_cons,ih ht,List.mem_cons,List.forall_mem_cons]
        constructor
        · intro hx
          rcases hx with rfl | hm | ⟨rfl,hn⟩
          · exact .inl (.inl rfl)
          · exact .inl (.inr hm)
          · exact .inr ⟨rfl,fun he => hne he.symm,hn⟩
        · intro hx
          rcases hx with (rfl | hm) | ⟨rfl,_,hn⟩
          · exact .inl rfl
          · exact .inr (.inl hm)
          · exact .inr (.inr ⟨rfl,hn⟩)

theorem ascending_insertFinding (f : Finding) {fs : List Finding} (h : Ascending fs) :
    Ascending (insertFinding f fs) := by
  induction fs with
  | nil => exact List.pairwise_singleton _ _
  | cons d fs ih =>
    obtain ⟨hd,ht⟩ := List.pairwise_cons.mp h
    unfold insertFinding
    split
    · rename_i hlt
      refine List.pairwise_cons.mpr ⟨?_,h⟩
      intro e he
      rcases List.mem_cons.mp he with rfl | he
      · exact hlt
      · exact Nat.lt_trans hlt (hd e he)
    · split
      · exact h
      · rename_i hlt hne
        refine List.pairwise_cons.mpr ⟨?_,ih ht⟩
        intro e he
        rcases (mem_insertFinding ht).mp he with he | ⟨rfl,_⟩
        · exact hd e he
        · omega

/-- The first finding of a list with the index of a given one. -/
def firstLike (f : Finding) (fs : List Finding) : Option Finding :=
  fs.find? fun g => g.index == f.index

theorem firstLike_append (f : Finding) (fs gs : List Finding) :
    firstLike f (fs ++ gs) = (firstLike f fs).or (firstLike f gs) :=
  List.find?_append

/-- A list of findings put in order one by one holds the first finding for each index, the ones already
in order counted as earlier. -/
theorem mem_foldl_insertFinding (earlier : List Finding) {fs sorted : List Finding}
    (ha : Ascending sorted)
    (hs : ∀ f, f ∈ sorted ↔ firstLike f earlier = some f) :
    Ascending (fs.foldl (fun gs f => insertFinding f gs) sorted) ∧
      ∀ f, f ∈ fs.foldl (fun gs f => insertFinding f gs) sorted ↔
        firstLike f (earlier ++ fs) = some f := by
  induction fs generalizing earlier sorted with
  | nil => exact ⟨ha,by simpa using hs⟩
  | cons d fs ih =>
    have hstep : ∀ f, f ∈ insertFinding d sorted ↔ firstLike f (earlier ++ [d]) = some f := by
      intro f
      rw [mem_insertFinding ha,hs f,firstLike_append]
      cases he : firstLike f earlier with
      | some g =>
        have hg : g.index = f.index := by simpa using List.find?_some he
        have hgs : g ∈ sorted := by
          rw [hs g,firstLike,hg]
          exact he
        simp only [Option.some_or,Option.some.injEq]
        constructor
        · intro hx
          rcases hx with rfl | ⟨rfl,hn⟩
          · rfl
          · exact absurd hg (hn g hgs)
        · exact .inl
      | none =>
        simp only [reduceCtorEq,false_or,Option.none_or]
        constructor
        · intro hx
          obtain ⟨rfl,_⟩ := hx
          simp [firstLike]
        · intro hd
          obtain rfl : f = d := by simpa using List.mem_of_find?_eq_some hd
          refine ⟨rfl,?_⟩
          intro g hg hi
          rw [hs g,firstLike,hi] at hg
          rw [firstLike,hg] at he
          cases he
    simpa [List.append_assoc] using ih (earlier ++ [d]) (ascending_insertFinding d ha) hstep

theorem ascending_mergeFindings (old new : List Finding) : Ascending (mergeFindings old new) :=
  (mem_foldl_insertFinding [] List.Pairwise.nil (by simp [firstLike])).1

theorem mem_mergeFindings {old new : List Finding} {f : Finding} :
    f ∈ mergeFindings old new ↔ firstLike f (old ++ new) = some f :=
  (mem_foldl_insertFinding [] List.Pairwise.nil (by simp [firstLike])).2 f

theorem firstLike_eq_some_iff {fs : List Finding} (hd : (fs.map Finding.index).Nodup) {f : Finding} :
    firstLike f fs = some f ↔ f ∈ fs := by
  constructor
  · exact List.mem_of_find?_eq_some
  · intro hm
    cases he : firstLike f fs with
    | none =>
      have := List.find?_eq_none.mp he f hm
      simp at this
    | some g =>
      have hg : g.index = f.index := by simpa using List.find?_some he
      rw [List.inj_on_of_nodup_map hd (List.mem_of_find?_eq_some he) hm hg]

/-- Where no index occurs twice, nothing is dropped. -/
theorem mem_mergeFindings_of_nodup {old new : List Finding}
    (hd : ((old ++ new).map Finding.index).Nodup) {f : Finding} :
    f ∈ mergeFindings old new ↔ f ∈ old ∨ f ∈ new := by
  rw [mem_mergeFindings,firstLike_eq_some_iff hd,List.mem_append]

theorem mergeFindings_perm_append {old new : List Finding}
    (hd : ((old ++ new).map Finding.index).Nodup) : (mergeFindings old new).Perm (old ++ new) := by
  refine (List.perm_ext_iff_of_nodup (ascending_mergeFindings old new).index_nodup.of_map
    hd.of_map).mpr ?_
  intro f
  rw [mem_mergeFindings_of_nodup hd,List.mem_append]

theorem mergeFindings_nil {old : List Finding} (h : Ascending old) : mergeFindings old [] = old := by
  refine (ascending_mergeFindings old []).ext h ?_
  intro f
  rw [mem_mergeFindings_of_nodup (by simpa using h.index_nodup)]
  simp

/-- Findings already in order stay as they are while new ones are put in. -/
theorem mergeFindings_eq_foldl {old : List Finding} (h : Ascending old) (new : List Finding) :
    mergeFindings old new = new.foldl (fun fs f => insertFinding f fs) old := by
  rw [mergeFindings,List.foldl_append]
  congr 1
  simpa [mergeFindings] using mergeFindings_nil h

theorem findings_apply {c : Context} {p : Patch}
    (h : Ascending (if p.endpoints.isSome then [] else c.findings)) :
    (c.apply p).findings =
      mergeFindings (if p.endpoints.isSome then [] else c.findings) p.findings := by
  unfold apply
  simp only
  split
  · rename_i hn
    rw [List.isEmpty_iff.mp hn,mergeFindings_nil h]
  · rfl

/-- The order in which new findings arrive leaves no trace. -/
theorem mergeFindings_perm {old new new' : List Finding} (hp : new.Perm new')
    (hd : ((old ++ new).map Finding.index).Nodup) :
    mergeFindings old new = mergeFindings old new' := by
  have hd' : ((old ++ new').map Finding.index).Nodup :=
    ((hp.append_left old).map Finding.index).nodup_iff.mp hd
  refine (ascending_mergeFindings old new).ext (ascending_mergeFindings old new') ?_
  intro f
  rw [mem_mergeFindings_of_nodup hd,mem_mergeFindings_of_nodup hd',hp.mem_iff]

theorem mem_pending {c : Context} {i : Nat} :
    i ∈ c.pending ↔ i < c.endpoints.length ∧ ∀ f ∈ c.findings, f.index ≠ i := by
  simp [pending]

theorem pending_nodup (c : Context) : c.pending.Nodup :=
  List.nodup_range.filter _

end EndpointAudit.Context
