import EndpointAudit.Proofs.Merges
import EndpointAudit.Proofs.Walk

namespace EndpointAudit.Graph

variable {σ : Type} {g g' : Graph σ} {cancelled : StateM σ Bool} {observe : Observer σ}

/-- One execution of a stage, told without the number that the stage has in its graph. -/
structure Step (σ : Type) where
  number : Nat
  stage : Stage σ
  context : Context
  world : σ

/-- What the observer is told of an execution. -/
def Step.note? (x : Step σ) : Option Note :=
  ((x.stage.run x.context).run.run x.world).1.toOption.map fun (patch,label) =>
    ⟨x.number,x.stage.name,label,x.context.apply patch⟩

def Visit.step (v : Visit g) : Step σ :=
  ⟨v.number,g.stageAt v.stage,v.context,v.world⟩

/-- A course, told in this way. -/
structure Record (σ : Type) where
  steps : List (Step σ)
  stop : Stop
  context : Context
  world : σ

namespace Record

/-- The record with more executions in front. -/
def behind (steps : List (Step σ)) (x : Record σ) : Record σ :=
  { x with steps := steps ++ x.steps }

/-- The contexts between the executions: the one after so many of them stands at that place. -/
def contexts (x : Record σ) : List Context :=
  x.steps.map Step.context ++ [x.context]

theorem behind_nil (x : Record σ) : x.behind [] = x :=
  rfl

theorem behind_behind (first second : List (Step σ)) (x : Record σ) :
    (x.behind second).behind first = x.behind (first ++ second) := by
  simp [behind]

theorem contexts_behind (steps : List (Step σ)) (x : Record σ) :
    (x.behind steps).contexts[steps.length]? = x.contexts.head? := by
  simp [behind,contexts,List.head?_eq_getElem?]

end Record

def Course.record (r : Course g) : Record σ :=
  ⟨r.visits.map Visit.step,r.stop,r.context,r.world⟩

theorem record_after (r : Course g) (v : Visit g) : (r.after v).record = r.record.behind [v.step] :=
  rfl

theorem notes_record (r : Course g) : r.notes observe = r.record.steps.filterMap Step.note? := by
  have hnote : Visit.note? observe = fun v : Visit g => v.step.note? := funext note?_eq
  rw [Course.notes,hnote,Course.record,List.filterMap_map]
  rfl

/-- A run ends as its record does. -/
theorem run_record (c : Context) (w : σ) :
    (g.run cancelled observe c).run w =
      (⟨(g.course cancelled observe c w).record.stop.outcome g.cap,
        (g.course cancelled observe c w).record.context⟩,
        (g.course cancelled observe c w).record.world) :=
  run_course c w

theorem upshot_of_step {v : Visit g} {v' : Visit g'} (h : v.step = v'.step) :
    v.upshot observe = v'.upshot observe := by
  simp only [Visit.step,Step.mk.injEq] at h
  obtain ⟨hn,hs,hc,hw⟩ := h
  simp only [Visit.upshot,Visit.name,hn,hs,hc,hw]

/-- A run begins with the context it is given. -/
theorem Runs.contexts_head {left s c w r} (h : Runs g cancelled observe left s c w r) :
    r.record.contexts.head? = some c := by
  cases h <;> rfl

/-- Two graphs that differ at most in the numbers of their stages and in the cap. -/
structure Alike (g g' : Graph σ) : Prop where
  start : g.stageAt g.start = g'.stageAt g'.start
  next : ∀ {s s'}, g.stageAt s = g'.stageAt s' → ∀ label,
    (g.next? s label).map g.stageAt = (g'.next? s' label).map g'.stageAt

section Built

variable {stages stages' : List (Stage σ)} {edges edges' : List Edge} {start : Option String}
  {cap cap' : Nat}

theorem Built.stageAt_mem (h : Built stages edges start cap g) (s : Fin g.stages.length) :
    g.stageAt s ∈ stages := by
  rw [← h.stages_eq]
  exact List.getElem_mem s.isLt

theorem Built.exists_stageAt (h : Built stages edges start cap g) {x : Stage σ} (hx : x ∈ stages) :
    ∃ s, g.stageAt s = x := by
  rw [← h.stages_eq] at hx
  obtain ⟨i,hi,he⟩ := List.getElem_of_mem hx
  exact ⟨⟨i,hi⟩,he⟩

/-- The edges of a built graph lead from stage to stage. -/
theorem Built.leads_iff (h : Built stages edges start cap g) {s : Fin g.stages.length}
    {label : String} {x : Stage σ} :
    (g.next? s label).map g.stageAt = some x ↔
      ⟨(g.stageAt s).name,label,x.name⟩ ∈ edges ∧ x ∈ stages := by
  rw [Option.map_eq_some_iff]
  constructor
  · intro ⟨t,ht,hx⟩
    subst hx
    exact ⟨(h.next_iff s label t).mp ht,h.stageAt_mem t⟩
  · intro ⟨he,hx⟩
    obtain ⟨t,rfl⟩ := h.exists_stageAt hx
    exact ⟨t,(h.next_iff s label t).mpr he,rfl⟩

theorem Built.alike (h : Built stages edges start cap g) (h' : Built stages' edges' start cap' g')
    (hs : ∀ x, x ∈ stages ↔ x ∈ stages') (he : ∀ e, e ∈ edges ↔ e ∈ edges') : Alike g g' where
  start := by
    have hname : (g.stageAt g.start).name = (g'.stageAt g'.start).name :=
      Option.some.inj (h.start_eq.symm.trans h'.start_eq)
    have hmem : g'.stageAt g'.start ∈ g.stages := by
      rw [h.stages_eq,hs]
      exact h'.stageAt_mem g'.start
    exact List.inj_on_of_nodup_map h.distinct (List.getElem_mem g.start.isLt) hmem hname
  next := by
    intro s s' hstage label
    refine Option.ext fun x => ?_
    rw [h.leads_iff,h'.leads_iff,hstage,hs,he]

end Built

/-- With `more` executions left over, a run of a graph like the first one goes the same way, and where
the cap cuts the first run it goes on: it is not cancelled there and stands before a stage with the
context of the first. The induction follows the first run, so that the second one has left what the
first has left and `more`. -/
theorem Runs.prolonged {left s c w r} (h : Runs g cancelled observe left s c w r) (k : Alike g g')
    {more : Nat} (hcap : g'.cap = g.cap + more) {s' : Fin g'.stages.length}
    (hs : g.stageAt s = g'.stageAt s') :
    ∃ r', Runs g' cancelled observe (left + more) s' c w r' ∧
      (r.stop ≠ .capped → r'.record = r.record) ∧
      (r.stop = .capped → ∃ t w₀ rest, cancelled.run w₀ = (false,r.world) ∧
        Runs g' cancelled observe more t r.context w₀ rest ∧
        r'.record = rest.record.behind r.record.steps) := by
  have hstep (left : Nat) {s s'} (hs : g.stageAt s = g'.stageAt s') (c : Context) (w : σ) :
      Visit.step ⟨g'.cap - (left + more),s',c,w⟩ = Visit.step ⟨g.cap - left,s,c,w⟩ := by
    simp only [Visit.step,hcap,Nat.add_sub_add_right,hs]
  induction h generalizing s' with
  | cancelled polled => exact ⟨_,.cancelled polled,fun _ => rfl,nofun⟩
  | @capped s c w w₁ polled =>
    have hr : Runs g' cancelled observe more s' c w _ := courseFrom_runs more s' c w
    refine ⟨_,?_,fun hn => absurd rfl hn,fun _ => ⟨s',w,_,polled,hr,(Record.behind_nil _).symm⟩⟩
    rwa [Nat.zero_add]
  | @failed left _ _ _ _ _ _ polled visited =>
    have hv := hstep left hs
    rw [Nat.add_right_comm]
    refine ⟨_,.failed polled ((upshot_of_step (hv _ _)).trans visited),fun _ => ?_,nofun⟩
    simp only [Course.record,List.map_cons,hv,List.map_nil]
  | @unheard left _ _ _ _ _ _ _ _ polled visited =>
    have hv := hstep left hs
    rw [Nat.add_right_comm]
    refine ⟨_,.unheard polled ((upshot_of_step (hv _ _)).trans visited),fun _ => ?_,nofun⟩
    simp only [Course.record,List.map_cons,hv,List.map_nil]
  | @finished left _ _ _ _ _ label _ polled visited last =>
    have hv := hstep left hs
    have hlast := k.next hs label
    rw [last,Option.map_none,eq_comm,Option.map_eq_none_iff] at hlast
    rw [Nat.add_right_comm]
    refine ⟨_,.finished polled ((upshot_of_step (hv _ _)).trans visited) hlast,fun _ => ?_,nofun⟩
    simp only [Course.record,List.map_cons,hv,List.map_nil]
  | @onward left _ _ _ _ _ label _ _ r polled visited edge rest ih =>
    have hv := hstep left hs
    have hnext := k.next hs label
    rw [edge,Option.map_some,eq_comm,Option.map_eq_some_iff] at hnext
    obtain ⟨next',hedge,hs'⟩ := hnext
    obtain ⟨r',hr',hsame,hcut⟩ := ih hs'.symm
    rw [Nat.add_right_comm]
    refine ⟨_,.onward polled ((upshot_of_step (hv _ _)).trans visited) hedge hr',?_,?_⟩
    · intro hn
      rw [record_after,record_after,hv,hsame hn]
    · intro hc
      obtain ⟨t,w₀,later,hp,hl,hrecord⟩ := hcut hc
      refine ⟨t,w₀,later,hp,hl,?_⟩
      rw [record_after,record_after,hv,hrecord,Record.behind_behind]
      rfl

theorem Alike.course_prolonged (k : Alike g g') {more : Nat} (hcap : g'.cap = g.cap + more)
    (cancelled : StateM σ Bool) (observe : Observer σ) (c : Context) (w : σ) :
    let r := g.course cancelled observe c w
    let r' := g'.course cancelled observe c w
    (r.stop ≠ .capped → r'.record = r.record) ∧
    (r.stop = .capped → ∃ t w₀ rest, cancelled.run w₀ = (false,r.world) ∧
      Runs g' cancelled observe more t r.context w₀ rest ∧
      r'.record = rest.record.behind r.record.steps) := by
  intro r r'
  obtain ⟨r₁,hr₁,hsame,hcut⟩ := (course_runs c w).prolonged k hcap k.start
  have hr' : r' = r₁ := by
    rw [hr₁.eq_courseFrom,← hcap]
    rfl
  rw [hr']
  exact ⟨hsame,hcut⟩

/-- Graphs that are alike and have the same cap run the same way. -/
theorem Alike.record_eq (k : Alike g g') (hcap : g'.cap = g.cap) (c : Context) (w : σ) :
    (g'.course cancelled observe c w).record = (g.course cancelled observe c w).record := by
  have hcap' : g'.cap = g.cap + 0 := hcap
  obtain ⟨hsame,hcut⟩ := k.course_prolonged hcap' cancelled observe c w
  by_cases hc : (g.course cancelled observe c w).stop = .capped
  · obtain ⟨t,w₀,rest,hp,hrest,hrecord⟩ := hcut hc
    cases hrest with
    | cancelled polled => cases hp.symm.trans polled
    | capped polled =>
      obtain rfl := (Prod.mk.inj (hp.symm.trans polled)).2
      rw [hrecord]
      simp [Course.record,Record.behind,hc]
  · exact hsame hc

theorem Stop.outcome_of_uncut {stop : Stop} (h : stop ≠ .capped) (m m' : Nat) :
    stop.outcome m' = stop.outcome m := by
  cases stop <;> first | rfl | exact absurd rfl h

/-- A run with a higher cap. Where the lower cap does not cut the run, it executes the same stages,
tells the observer the same and ends in the same way with the same context. Where it does, the run with
the higher cap begins with the same executions and the same calls of the observer, and after them its
context is the one with which the other run was cut. -/
theorem run_cap_raised {stages : List (Stage σ)} {edges : List Edge} {start : Option String}
    {m m' : Nat} (hb : build stages edges start m = .ok g) (hm : m ≤ m') (cancelled : StateM σ Bool)
    (observe : Observer σ) (c : Context) (w : σ) :
    ∃ g', build stages edges start m' = .ok g' ∧
      let r := g.course cancelled observe c w
      let r' := g'.course cancelled observe c w
      (g.run cancelled observe c).run w = (⟨r.stop.outcome m,r.context⟩,r.world) ∧
      (g'.run cancelled observe c).run w = (⟨r'.stop.outcome m',r'.context⟩,r'.world) ∧
      (r.stop ≠ .capped →
        r'.record.steps = r.record.steps ∧ r'.notes observe = r.notes observe ∧
        (g'.run cancelled observe c).run w = (g.run cancelled observe c).run w) ∧
      (r.stop = .capped →
        r.record.steps.length = m ∧ r.record.steps <+: r'.record.steps ∧
        r.notes observe <+: r'.notes observe ∧ r'.record.contexts[m]? = some r.context) := by
  obtain ⟨hnames,name,first,table,hstart,hfirst,htable,hpos,_⟩ := build_eq_ok_iff.mp hb
  obtain ⟨g',hb'⟩ : ∃ g', build stages edges start m' = .ok g' :=
    ⟨_,build_eq_ok_iff.mpr ⟨hnames,name,first,table,hstart,hfirst,htable,by omega,rfl⟩⟩
  have hg := build_built hb
  have hg' := build_built hb'
  have hcap : g'.cap = g.cap + (m' - m) := by
    rw [hg.cap_eq,hg'.cap_eq]
    omega
  refine ⟨g',hb',?_⟩
  intro r r'
  have hrun : (g.run cancelled observe c).run w = (⟨r.stop.outcome m,r.context⟩,r.world) := by
    rw [run_course,Course.ended,hg.cap_eq]
  have hrun' : (g'.run cancelled observe c).run w =
      (⟨r'.stop.outcome m',r'.context⟩,r'.world) := by
    rw [run_course,Course.ended,hg'.cap_eq]
  obtain ⟨hsame,hcut⟩ := (hg.alike hg' (fun _ => .rfl) fun _ => .rfl).course_prolonged
    hcap cancelled observe c w
  refine ⟨hrun,hrun',?_,?_⟩
  · intro hs
    have hr : r'.record = r.record := hsame hs
    refine ⟨congrArg Record.steps hr,?_,?_⟩
    · rw [notes_record,notes_record,hr]
    · obtain ⟨_,hstop,hcontext,hworld⟩ := Record.mk.inj hr
      rw [hrun,hrun',hstop,hcontext,hworld,Stop.outcome_of_uncut hs]
  · intro hs
    obtain ⟨t,w₀,rest,_,hrest,hrecord⟩ := hcut hs
    have hlength : r.record.steps.length = m := by
      have hvisits := (((course_runs c w).stop_capped_iff hg).mp hs).1
      simpa [Course.record,hg.cap_eq] using hvisits
    have hsteps : r'.record.steps = r.record.steps ++ rest.record.steps := congrArg Record.steps hrecord
    refine ⟨hlength,⟨_,hsteps.symm⟩,?_,?_⟩
    · rw [notes_record,notes_record,hsteps,List.filterMap_append]
      exact List.prefix_append _ _
    · rw [← hlength,hrecord,Record.contexts_behind]
      exact hrest.contexts_head

/-- The press is cut after two turns, and jams in its third one if it may go on. -/
theorem run_cap_raised_press :
    let r := (press Unit 2).course (pure false) .silent {} ()
    let r' := (press Unit 5).course (pure false) .silent {} ()
    build (press Unit 2).stages millEdges (some "turn") 2 = .ok (press Unit 2) ∧ 2 ≤ 5 ∧
      r.stop = .capped ∧ r'.stop = .failed (.config "jammed") ∧
      r.notes .silent <+: r'.notes .silent ∧ r'.record.contexts[2]? = some r.context := by
  intro r r'
  have hb : build (press Unit 2).stages millEdges (some "turn") 2 = .ok (press Unit 2) := rfl
  have hb' : build (press Unit 2).stages millEdges (some "turn") 5 = .ok (press Unit 5) := rfl
  obtain ⟨g',hg,_,_,_,hcut⟩ :=
    run_cap_raised hb (show 2 ≤ 5 by omega) (pure false) .silent {} ()
  obtain rfl := Except.ok.inj (hb'.symm.trans hg)
  obtain ⟨_,_,hnotes,hcontext⟩ := hcut rfl
  exact ⟨hb,by omega,rfl,rfl,hnotes,hcontext⟩

end EndpointAudit.Graph
