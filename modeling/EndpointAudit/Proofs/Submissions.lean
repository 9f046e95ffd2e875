import EndpointAudit.Proofs.FindingOrder
import Mathlib.Data.List.Induction

namespace EndpointAudit

/-- Whether a patch replaces the endpoints. The findings of the old ones go, its own ones stay. -/
def Patch.renews (p : Patch) : Bool :=
  p.endpoints.isSome

namespace Context

/-- The patches from the last one on that replaced the endpoints; all of them if none did. -/
def inForce : List Patch → List Patch
  | [] => []
  | p :: ps => if ps.any Patch.renews then inForce ps else p :: ps

/-- The findings that were submitted for the endpoints in force, in the order of their submission. -/
def submitted (ps : List Patch) : List Finding :=
  (inForce ps).flatMap Patch.findings

theorem inForce_concat (ps : List Patch) (p : Patch) :
    inForce (ps ++ [p]) = if p.renews then [p] else inForce ps ++ [p] := by
  induction ps with
  | nil => simp [inForce]
  | cons q ps ih =>
    rw [List.cons_append]
    unfold inForce
    cases hp : p.renews with
    | true => simp [hp,ih]
    | false =>
      simp only [hp,Bool.false_eq_true,↓reduceIte] at ih
      cases hs : ps.any Patch.renews <;> simp [hp,hs,ih]

theorem submitted_concat (ps : List Patch) (p : Patch) :
    submitted (ps ++ [p]) = (if p.renews then [] else submitted ps) ++ p.findings := by
  unfold submitted
  rw [inForce_concat]
  split <;> simp

/-- Of the submitted findings a context holds the first one for each index, in order. -/
structure HoldsFirst (c : Context) (fs : List Finding) : Prop where
  ascending : Ascending c.findings
  first : ∀ f, f ∈ c.findings ↔ firstLike f fs = some f

variable {c : Context} {fs : List Finding}

theorem HoldsFirst.apply (h : c.HoldsFirst fs) (p : Patch) :
    (c.apply p).HoldsFirst ((if p.renews then [] else fs) ++ p.findings) := by
  have hkept : Ascending (if p.renews then [] else c.findings) ∧
      ∀ f, f ∈ (if p.renews then [] else c.findings) ↔
        firstLike f (if p.renews then [] else fs) = some f := by
    cases p.renews with
    | true => exact ⟨List.Pairwise.nil,by simp [firstLike]⟩
    | false => exact ⟨h.ascending,h.first⟩
  have hmerge : (c.apply p).findings =
      p.findings.foldl (fun gs f => insertFinding f gs) (if p.renews then [] else c.findings) :=
    (findings_apply hkept.1).trans (mergeFindings_eq_foldl hkept.1 p.findings)
  obtain ⟨ha,hf⟩ := @mem_foldl_insertFinding _ p.findings _ hkept.1 hkept.2
  exact ⟨hmerge ▸ ha,hmerge ▸ hf⟩

theorem HoldsFirst.index_iff (h : c.HoldsFirst fs) (i : Nat) :
    (∃ f ∈ c.findings, f.index = i) ↔ ∃ f ∈ fs, f.index = i := by
  constructor
  · intro ⟨f,hf,hi⟩
    exact ⟨f,List.mem_of_find?_eq_some ((h.first f).mp hf),hi⟩
  · intro ⟨f,hf,hi⟩
    cases hg : firstLike f fs with
    | none =>
      have := List.find?_eq_none.mp hg f hf
      simp at this
    | some g =>
      have hgi : g.index = f.index := by simpa using List.find?_some hg
      refine ⟨g,(h.first g).mpr ?_,hgi.trans hi⟩
      rw [firstLike,hgi]
      exact hg

theorem HoldsFirst.mem_pending_iff (h : c.HoldsFirst fs) (i : Nat) :
    i ∈ c.pending ↔ i < c.endpoints.length ∧ ∀ f ∈ fs, f.index ≠ i := by
  rw [mem_pending]
  refine and_congr_right fun _ => ?_
  have := not_congr (h.index_iff i)
  push Not at this
  exact this

/-- What holds of a new context and is kept by patches holds of a context made by any series of them. -/
theorem holdsFirst_foldl (hc : c.findings = []) (ps : List Patch) :
    (ps.foldl Context.apply c).HoldsFirst (submitted ps) := by
  induction ps using List.reverseRecOn with
  | nil => exact ⟨hc ▸ List.Pairwise.nil,by simp [hc,submitted,inForce,firstLike]⟩
  | append_singleton ps p ih =>
    rw [List.foldl_append,submitted_concat]
    exact ih.apply p

theorem endpoints_foldl (c : Context) (ps : List Patch) :
    (ps.foldl Context.apply c).endpoints =
      ((ps.filterMap Patch.endpoints).getLast?).getD c.endpoints := by
  induction ps using List.reverseRecOn with
  | nil => rfl
  | append_singleton ps p ih =>
    rw [List.foldl_append,List.filterMap_append]
    cases hp : p.endpoints <;> simp [apply,hp,ih]

theorem pending_sorted (c : Context) : c.pending.Pairwise (· < ·) :=
  List.pairwise_lt_range.filter _

/-- A patch that keeps the endpoints loses no finding and makes nothing pending. -/
theorem HoldsFirst.kept (h : c.HoldsFirst fs) {p : Patch} (hp : p.endpoints = none) :
    c.findings ⊆ (c.apply p).findings ∧ (c.apply p).pending.Sublist c.pending := by
  have hn : p.renews = false := by simp [Patch.renews,hp]
  have ha := h.apply p
  rw [hn,if_neg (by decide)] at ha
  have hsub : c.findings ⊆ (c.apply p).findings := by
    intro f hf
    rw [ha.first,firstLike_append,(h.first f).mp hf]
    rfl
  refine ⟨hsub,?_⟩
  have he : (c.apply p).endpoints = c.endpoints := by simp [Context.apply,hp]
  unfold pending
  rw [he]
  refine List.monotone_filter_right _ ?_
  intro i hi
  simp only [List.contains_eq_mem,Bool.not_eq_true',decide_eq_false_iff_not] at hi ⊢
  intro hm
  obtain ⟨f,hf,rfl⟩ := List.mem_map.mp hm
  exact hi (List.mem_map.mpr ⟨f,hsub hf,rfl⟩)

/-- A context that began without endpoints and findings holds, in ascending order, the finding that was
submitted first for each index since the endpoints were last replaced, and nothing else. Pending are the
endpoints for which nothing was submitted; only a patch that replaces the endpoints can add to them. -/
theorem findings_submitted_first (project : Option Project) (session : Option Session)
    (ps : List Patch) :
    let c := ps.foldl Context.apply { project,session }
    c.endpoints = ((ps.filterMap Patch.endpoints).getLast?).getD [] ∧
    Ascending c.findings ∧
    (∀ f, f ∈ c.findings ↔ ∃ earlier later, submitted ps = earlier ++ f :: later ∧
      ∀ g ∈ earlier, g.index ≠ f.index) ∧
    (∀ f ∈ submitted ps, ∃ g ∈ c.findings, g.index = f.index) ∧
    c.pending.Pairwise (· < ·) ∧
    (∀ i, i ∈ c.pending ↔ i < c.endpoints.length ∧ ∀ f ∈ c.findings, f.index ≠ i) ∧
    (∀ i, i ∈ c.pending ↔ i < c.endpoints.length ∧ ∀ f ∈ submitted ps, f.index ≠ i) ∧
    ∀ p : Patch, p.endpoints = none →
      c.findings ⊆ (c.apply p).findings ∧ (c.apply p).pending.Sublist c.pending := by
  intro c
  have h : c.HoldsFirst (submitted ps) := holdsFirst_foldl rfl ps
  refine ⟨endpoints_foldl _ ps,h.ascending,?_,?_,pending_sorted c,fun _ => mem_pending,
    h.mem_pending_iff,fun _ hp => h.kept hp⟩
  · intro f
    rw [h.first,firstLike,List.find?_eq_some_iff_append]
    simp
  · intro f hf
    exact (h.index_iff f.index).mpr ⟨f,hf,rfl⟩

end Context

end EndpointAudit
