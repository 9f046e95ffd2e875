import EndpointAudit.Proofs.Prolongation

namespace EndpointAudit.Graph

variable {σ : Type} {stages : List (Stage σ)} {edges : List Edge} {start : Option String} {cap : Nat}

/-- Stages, edges, start and cap that fit together. -/
structure Coherent (stages : List (Stage σ)) (edges : List Edge) (start : Option String)
    (cap : Nat) : Prop where
  distinct : (stages.map Stage.name).Nodup
  started : ∃ name ∈ stages.map Stage.name, start = some name
  joined : ∀ e ∈ edges, e.source ∈ stages.map Stage.name ∧ e.target ∈ stages.map Stage.name
  agreed : ∀ e ∈ edges, ∀ e' ∈ edges,
    e.source = e'.source → e.label = e'.label → e.target = e'.target
  capped : 1 ≤ cap

/-- Whatever order the parts stand in. -/
theorem Coherent.reordered (h : Coherent stages edges start cap) {stages' : List (Stage σ)}
    {edges' : List Edge} (hs : stages'.Perm stages) (he : ∀ e, e ∈ edges' ↔ e ∈ edges) :
    Coherent stages' edges' start cap := by
  have hnames : (stages'.map Stage.name).Perm (stages.map Stage.name) := hs.map Stage.name
  have hmem (name : String) : name ∈ stages'.map Stage.name ↔ name ∈ stages.map Stage.name :=
    hnames.mem_iff
  obtain ⟨name,hname,hstart⟩ := h.started
  exact {
    distinct := hnames.nodup_iff.mpr h.distinct
    started := ⟨name,(hmem name).mpr hname,hstart⟩
    joined := by
      intro e hm
      rw [hmem,hmem]
      exact h.joined e ((he e).mp hm)
    agreed := fun e hm e' hm' => h.agreed e ((he e).mp hm) e' ((he e').mp hm')
    capped := h.capped }

theorem exists_build_iff :
    (∃ g, build stages edges start cap = .ok g) ↔ Coherent stages edges start cap := by
  constructor
  · intro ⟨g,h⟩
    obtain ⟨hr,name,first,table,hstart,hfirst,ht,hc,_⟩ := build_eq_ok_iff.mp h
    have hd := (repeated_none_nodup hr).1
    exact {
      distinct := hd
      started := ⟨name,(lookup_ok_iff hd).mp hfirst ▸ name_mem first,hstart⟩
      joined := by
        intro e he
        obtain ⟨⟨s,hs⟩,t,ht⟩ := addEdges_ends hd ht e he
        exact ⟨hs ▸ name_mem s,ht ▸ name_mem t⟩
      agreed := fun _ he _ he' => addEdges_agreed hd ht he he'
      capped := Nat.pos_of_ne_zero hc }
  · intro h
    obtain ⟨name,hm,hstart⟩ := h.started
    obtain ⟨first,hfirst⟩ := exists_lookup h.distinct hm
    obtain ⟨table,ht⟩ : ∃ table, addEdges stages [] edges = .ok table :=
      exists_addEdges h.distinct h.joined h.agreed (by simp)
    have hr : repeated? [] (stages.map Stage.name) = none := repeated_of_nodup h.distinct (by simp)
    have hc : cap ≠ 0 := Nat.ne_of_gt h.capped
    exact ⟨_,build_eq_ok_iff.mpr ⟨hr,name,first,table,hstart,hfirst,ht,hc,rfl⟩⟩

section Refusals

variable {f : Error}

theorem lookup_refused {name : String} (h : lookup stages name = .error f) :
    ∃ reason, f = .graph reason := by
  unfold lookup at h
  cases hi : indexOf? stages name with
  | none =>
    rw [hi] at h
    exact ⟨_,(Except.error.inj h).symm⟩
  | some s =>
    rw [hi] at h
    cases h

theorem addEdges_refused {table : List ((Fin stages.length × String) × Fin stages.length)}
    (h : addEdges stages table edges = .error f) : ∃ reason, f = .graph reason := by
  induction edges generalizing table with
  | nil => cases h
  | cons e es ih =>
    unfold addEdges at h
    rcases Except.error_of_bind h with h | ⟨s,_,h⟩
    · exact lookup_refused h
    rcases Except.error_of_bind h with h | ⟨t,_,h⟩
    · exact lookup_refused h
    split at h
    · exact ih h
    · split at h
      · exact ih h
      · exact ⟨_,(Except.error.inj h).symm⟩

theorem build_refused (h : build stages edges start cap = .error f) : ∃ reason, f = .graph reason := by
  unfold build at h
  cases hr : repeated? [] (stages.map Stage.name) with
  | some n =>
    rw [hr] at h
    exact ⟨_,(Except.error.inj h).symm⟩
  | none =>
    rw [hr] at h
    rcases Except.error_of_bind h with h | ⟨_,_,h⟩
    · cases h
    cases start with
    | none => exact ⟨_,(Except.error.inj h).symm⟩
    | some name =>
      rcases Except.error_of_bind h with h | ⟨first,_,h⟩
      · exact lookup_refused h
      rcases Except.error_of_bind h with h | ⟨table,_,h⟩
      · exact addEdges_refused h
      split at h
      · exact ⟨_,(Except.error.inj h).symm⟩
      · cases h

end Refusals

/-- A graph is built just if its parts fit together, and is refused as a graph otherwise. The stages
keep their places, so that every visit of a run is to one of them, and an action leads from a stage to
another just if that edge was given. The parts may be given in any other order, and edges more than
once: then a graph is built or refused as before, and it executes the same stages, tells the observer
the same and ends in the same way with the same context. -/
theorem build_registered (stages : List (Stage σ)) (edges : List Edge) (start : Option String)
    (cap : Nat) :
    ((∃ g, build stages edges start cap = .ok g) ↔ Coherent stages edges start cap) ∧
    (¬ Coherent stages edges start cap →
      ∃ reason, build stages edges start cap = .error (.graph reason)) ∧
    (∀ g, build stages edges start cap = .ok g →
      g.stages = stages ∧ start = some (g.stageAt g.start).name ∧ g.cap = cap ∧
      (∀ s label t, g.next? s label = some t ↔
        ⟨(g.stageAt s).name,label,(g.stageAt t).name⟩ ∈ edges) ∧
      ∀ cancelled observe c w, ∀ v ∈ (g.course cancelled observe c w).visits,
        stages[v.stage.val]? = some (g.stageAt v.stage)) ∧
    ∀ stages' edges', stages'.Perm stages → (∀ e, e ∈ edges' ↔ e ∈ edges) →
      ((∃ g', build stages' edges' start cap = .ok g') ↔ ∃ g, build stages edges start cap = .ok g) ∧
      ∀ g g', build stages edges start cap = .ok g → build stages' edges' start cap = .ok g' →
        ∀ cancelled observe c w,
          let r := g.course cancelled observe c w
          let r' := g'.course cancelled observe c w
          r'.record.steps = r.record.steps ∧ r'.notes observe = r.notes observe ∧
          (g'.run cancelled observe c).run w = (g.run cancelled observe c).run w := by
  refine ⟨exists_build_iff,?_,?_,?_⟩
  · intro hn
    cases hb : build stages edges start cap with
    | ok g => exact absurd (exists_build_iff.mp ⟨g,hb⟩) hn
    | error f =>
      obtain ⟨reason,rfl⟩ := build_refused hb
      exact ⟨reason,rfl⟩
  · intro g hb
    have hg := build_built hb
    refine ⟨hg.stages_eq,hg.start_eq,hg.cap_eq,hg.next_iff,?_⟩
    intro cancelled observe c w v _
    rw [← hg.stages_eq]
    exact List.getElem?_eq_getElem v.stage.isLt
  · intro stages' edges' hs he
    constructor
    · rw [exists_build_iff,exists_build_iff]
      exact ⟨fun h => h.reordered hs.symm fun e => (he e).symm,fun h => h.reordered hs he⟩
    · intro g g' hb hb' cancelled observe c w r r'
      have hg := build_built hb
      have hg' := build_built hb'
      have hcap : g'.cap = g.cap := hg'.cap_eq.trans hg.cap_eq.symm
      have hr : r'.record = r.record :=
        (hg.alike hg' (fun _ => hs.mem_iff.symm) fun e => (he e).symm).record_eq hcap c w
      refine ⟨congrArg Record.steps hr,?_,?_⟩
      · rw [notes_record,notes_record,hr]
      · rw [run_record,run_record,hr,hcap]

/-- Two stages that take turns. -/
def duo (σ : Type) : List (Stage σ) :=
  [{ name := "ask", run := fun c => pure ({ round := some (c.round + 1) },defaultLabel) },
    { name := "check", run := fun _ => pure ({},"again") }]

def duoEdges : List Edge :=
  [{ source := "ask", target := "check" },{ source := "check", label := "again", target := "ask" }]

/-- The stages in the other order, and each edge twice: the stages have other numbers, and take the
same turns. -/
theorem build_registered_swapped :
    ∃ g g', build (duo Unit) duoEdges (some "ask") 3 = .ok g ∧
      build (duo Unit).reverse (duoEdges.reverse ++ duoEdges) (some "ask") 3 = .ok g' ∧
      g.start.val = 0 ∧ g'.start.val = 1 ∧
      (g'.course (pure false) .silent {} ()).record.steps =
        (g.course (pure false) .silent {} ()).record.steps ∧
      (g.course (pure false) .silent {} ()).visits.map Visit.name = ["ask","check","ask"] := by
  obtain ⟨_,_,_,horder⟩ := build_registered (duo Unit) duoEdges (some "ask") 3
  obtain ⟨_,hruns⟩ := horder (duo Unit).reverse (duoEdges.reverse ++ duoEdges)
    (List.reverse_perm _) (by simp)
  refine ⟨_,_,rfl,rfl,rfl,rfl,?_,rfl⟩
  exact (hruns _ _ rfl rfl (pure false) .silent {} ()).1

end EndpointAudit.Graph
