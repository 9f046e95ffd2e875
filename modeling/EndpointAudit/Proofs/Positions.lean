import EndpointAudit.Proofs.Isolation
import EndpointAudit.Proofs.Rounds

namespace EndpointAudit

open EndpointAudit.Graph Act Analysis

namespace Endpoint

/-- An endpoint whose position is a written span. -/
def Placed (e : Endpoint) : Prop :=
  ∃ s, CodeSpan.parse e.position = .ok s

theorem placed_iff {e : Endpoint} : e.Placed ↔ (CodeSpan.parse e.position).isOk = true := by
  unfold Placed
  cases CodeSpan.parse e.position <;> simp [Except.isOk,Except.toBool]

instance (e : Endpoint) : Decidable e.Placed :=
  decidable_of_iff _ placed_iff.symm

/-- The first endpoint of a list whose position is not a written span, and what is wrong with it. -/
def FirstFault (es : List Endpoint) (e : Endpoint) (reason : String) : Prop :=
  ∃ earlier later, es = earlier ++ e :: later ∧ (∀ d ∈ earlier, d.Placed) ∧
    CodeSpan.parse e.position = .error (.spanFormat e.position reason)

end Endpoint

namespace CodeSpan

theorem parse_or_fault (position : String) :
    (∃ s, parse position = .ok s) ∨
      ∃ reason, parse position = .error (.spanFormat position reason) := by
  unfold parse
  cases ofChars position.toList with
  | ok s => exact .inl ⟨s,rfl⟩
  | error f => exact .inr ⟨f.reason,rfl⟩

/-- Behind a written span a reading can only fail on files. -/
theorem extract_placed {position : String} {s : CodeSpan} (h : parse position = .ok s)
    (t : FileTree) (root written reason : String) :
    extract t root position ≠ .error (.spanFormat written reason) := by
  unfold extract
  rw [h]
  change (if !t.pathExists (Path.join root s.path) then .error (.spanMissing (Path.join root s.path))
    else do
      let text ← (t.readText (Path.join root s.path)).mapError (.io (Path.join root s.path))
      return s.cut text : Except Error String) ≠ _
  split
  · simp
  · cases t.readText (Path.join root s.path) <;> intro hx <;> cases hx

end CodeSpan

namespace Endpoint

/-- The check of a list of endpoints finds the first fault. -/
theorem validateAll_first (es : List Endpoint) :
    (validateAll es = .ok () ∧ ∀ e ∈ es, e.Placed) ∨
      ∃ e reason, FirstFault es e reason ∧ validateAll es = .error (.spanFormat e.position reason) := by
  induction es with
  | nil => exact .inl ⟨rfl,by simp⟩
  | cons e es ih =>
    rcases CodeSpan.parse_or_fault e.position with ⟨s,hs⟩ | ⟨reason,hr⟩
    · have hv : validateAll (e :: es) = validateAll es := by
        simp only [validateAll,validate,hs]
        rfl
      rcases ih with ⟨hok,hall⟩ | ⟨d,reason,⟨earlier,later,rfl,hearlier,hd⟩,herror⟩
      · exact .inl ⟨hv.trans hok,List.forall_mem_cons.mpr ⟨⟨s,hs⟩,hall⟩⟩
      · exact .inr ⟨d,reason,⟨e :: earlier,later,rfl,List.forall_mem_cons.mpr ⟨⟨s,hs⟩,hearlier⟩,hd⟩,
          hv.trans herror⟩
    · refine .inr ⟨e,reason,⟨[],es,rfl,by simp,hr⟩,?_⟩
      simp only [validateAll,validate,hr]
      rfl

end Endpoint

namespace Stages

/-- However the tasks of a batch take their turns, what one of them reads is at a written span. -/
def Batch.ReadsPlaced (b : Batch) : Prop :=
  ∀ w p w', Pool.Moves b.plan b.services True (Pool.ofJobs b.jobs,w) (p,w') →
    ∀ slot ∈ p.slots, ∀ position next, slot.standing = .working (.readSpan position next) →
      ∀ written reason, b.services.code position w' ≠ .error (.spanFormat written reason)

/-- A task reads at the position of its own job, before anything else. -/
theorem reading_discipline (plan : Plan) (services : Services) (jobs : List Job) :
    Pool.Discipline plan services True (fun _ => True) (fun _ => True) fun job phase _ =>
      job ∈ jobs ∧ ∀ t, phase = .working t → t.ReadsFirst job.endpoint.position ∨ t.Unreading where
  cancels _ _ := trivial
  outlasts _ h := h
  world _ _ _ := trivial
  own := by
    intro job before w after w' change _ _ ⟨hm,h⟩
    refine ⟨hm,?_⟩
    intro t ht
    cases change with
    | start going =>
      cases ht
      exact .inl (analyze_readsFirst plan job.index job.endpoint)
    | skip stopped | finish ended => cases ht
    | step steps =>
      cases ht
      rcases h _ rfl with hf | hu
      · cases steps with
        | read hr => exact .inr (hf.2 _)
        | unreadable hr => exact .inr trivial
        | found | broken | completed | refused | crashed | noted => exact hf.elim
      · exact .inr (hu.step steps)
  others _ _ _ _ h := h

theorem readsPlaced_of_jobs {b : Batch} (hd : (b.jobs.map Job.index).Nodup)
    (h : ∀ job ∈ b.jobs, job.endpoint.Placed) : b.ReadsPlaced := by
  intro w p w' hm slot hs position next hstanding written reason
  obtain ⟨phases,ho⟩ := (Pool.orderly_ofJobs trivial fun job hj => ⟨hj,fun t ht => by cases ht⟩).moves
    (reading_discipline b.plan b.services b.jobs) hd (fun _ _ => trivial) hm
  rw [ho.slots_eq] at hs
  obtain ⟨⟨job,phase⟩,hp,rfl⟩ := List.mem_map.mp hs
  obtain ⟨hjob,ht⟩ := ho.each _ hp
  have hphase : phase = .working (.readSpan position next) := by
    cases phase with
    | working t => exact congrArg _ (by simpa [Pool.Phase.standing] using hstanding)
    | waiting | arrived => cases hstanding
  obtain ⟨rfl,_⟩ := (ht _ hphase).resolve_right id
  obtain ⟨s,hparse⟩ := h job hjob
  exact CodeSpan.extract_placed hparse _ _ _ _

variable {c : Context} {project : Project}

theorem prepareAnalysis_faulty (hp : c.project = some project) {e : Error}
    (h : Endpoint.validateAll c.endpoints = .error e) (setup : AnalysisSetup) (w : World) :
    (prepareAnalysis setup c).run.run w = (.error e,w) := by
  unfold prepareAnalysis
  rw [hp,h]
  rfl

theorem prepared_readsPlaced (h : ∀ e ∈ c.endpoints, e.Placed) {setup : AnalysisSetup} {w w' : World}
    {b : Batch} (hb : (prepareAnalysis setup c).run.run w = (.ok b,w')) : b.ReadsPlaced := by
  have hj : b.jobs = jobsOf c := (prepareAnalysis_keeps setup c w).2 b (by rw [hb])
  refine readsPlaced_of_jobs (hj ▸ jobsOf_nodup c) ?_
  intro job hm
  exact h _ (List.mem_of_getElem? (jobsOf_endpoint (hj ▸ hm)))

end Stages

namespace Pipeline

open Stages

variable {p : Pipeline} {g : Graph World}

/-- Once a run has come to the analysis, it goes on between analysis and summary, and the endpoints
stay as they are. -/
theorem endpoints_lasting (hb : Built p.stages edges (some detectionName) p.settings.cap g) :
    Lasting g World.poll snapshot fun past s c _ => ∀ v ∈ past, v.name = analysisName →
      ((g.stageAt s).name = analysisName ∨ (g.stageAt s).name = summaryName) ∧
        c.endpoints = v.context.endpoints where
  polled h := h
  onward := by
    intro past v patch label w next hpast visited edge
    obtain ⟨made,hon⟩ := onward_of_visited hb visited edge
    have hstep (h : v.name = analysisName ∨ v.name = summaryName) :
        ((g.stageAt next).name = analysisName ∨ (g.stageAt next).name = summaryName) ∧
          (v.context.apply patch).endpoints = v.context.endpoints := by
      generalize v.name = name at hon h
      generalize (g.stageAt next).name = nextName at hon
      cases hon with
      | detected project | extracted endpoints => rcases h with h | h <;> exact absurd h (by decide)
      | analyzed answered => exact ⟨.inr rfl,rfl⟩
      | reopened report left => exact ⟨.inl rfl,rfl⟩
    intro v' hv hv'
    rcases List.mem_append.mp hv with hv | hv
    · obtain ⟨hs,he⟩ := hpast v' hv hv'
      obtain ⟨hs',he'⟩ := hstep hs
      exact ⟨hs',he'.trans he⟩
    · obtain rfl := List.mem_singleton.mp hv
      exact hstep (.inl hv')

theorem endpoints_later (hg : p.graph = .ok g) (c : Context) (w : World) {earlier later : List (Visit g)}
    {v v' : Visit g} (hv : (g.course World.poll snapshot c w).visits = earlier ++ v :: later)
    (hn : v.name = analysisName) (hl : v' ∈ later) : v'.context.endpoints = v.context.endpoints := by
  obtain ⟨between,rest,rfl⟩ := List.append_of_mem hl
  have hpast := (endpoints_lasting (graph_built hg)).visits (course_runs c w) [] (by simp)
    (hv.trans (List.append_assoc earlier (v :: between) (v' :: rest)).symm)
  exact (hpast v (by simp) hn).2

/-- The analysis of a context stops with a fault before anything is done, whatever tools, templates and
model it is set up with, and so does a run that comes to it. -/
structure StopsAt (c : Context) (fault : Error) : Prop where
  stage : ∀ setup w, ((analysis setup).run c).run.run w = (.error fault,w)
  run : ∀ (g : Graph World) cancelled observe c₀ w₀ setup,
    ∀ v ∈ (g.course cancelled observe c₀ w₀).visits, g.stageAt v.stage = analysis setup →
      v.context = c → (g.run cancelled observe c₀).run w₀ = (⟨.error fault,c⟩,v.world)

theorem stopsAt_of_faulty {c : Context} {project : Project} (hp : c.project = some project)
    {fault : Error} (h : Endpoint.validateAll c.endpoints = .error fault) : StopsAt c fault := by
  have hstage (setup : AnalysisSetup) (w : World) :
      ((analysis setup).run c).run.run w = (.error fault,w) := by
    unfold analysis Stage.ofPhases
    simp only
    rw [run_seq,prepareAnalysis_faulty hp h]
  refine ⟨hstage,?_⟩
  intro g cancelled observe c₀ w₀ setup v hv hs rfl
  have hu : v.upshot observe = (.failed fault,v.world) := by
    unfold Visit.upshot
    rw [hs,hstage]
  obtain ⟨pre,hr⟩ := (course_runs c₀ w₀).failed_last hv hu
  rw [run_course,Course.ended,hr]
  rfl

/-- The positions of all endpoints are checked, whether they have a finding or not, and the first one
that is not a written span stops the analysis with its fault. Where there is none, no reading of a batch
meets such a fault, neither in this round nor in a later one. -/
theorem positions_checked {c : Context} {project : Project} (hp : c.project = some project) :
    ((∃ e ∈ c.endpoints, ¬ e.Placed) → ∃ e reason, Endpoint.FirstFault c.endpoints e reason ∧
        StopsAt c (.spanFormat e.position reason)) ∧
    ((∀ e ∈ c.endpoints, e.Placed) →
      (∀ setup w b w', (prepareAnalysis setup c).run.run w = (.ok b,w') → b.ReadsPlaced) ∧
        ∀ (p : Pipeline) (g : Graph World) c₀ w₀ (earlier later : List (Visit g)) (v : Visit g),
          p.graph = .ok g → (g.course World.poll snapshot c₀ w₀).visits = earlier ++ v :: later →
          v.name = analysisName → v.context = c → ∀ v' ∈ later, ∀ setup w b w',
            (prepareAnalysis setup v'.context).run.run w = (.ok b,w') → b.ReadsPlaced) := by
  constructor
  · intro ⟨d,hd,hfault⟩
    rcases Endpoint.validateAll_first c.endpoints with ⟨_,hall⟩ | ⟨e,reason,hfirst,hcheck⟩
    · exact absurd (hall d hd) hfault
    · exact ⟨e,reason,hfirst,stopsAt_of_faulty hp hcheck⟩
  · intro hall
    refine ⟨fun setup w b w' hb => prepared_readsPlaced hall hb,?_⟩
    intro p g c₀ w₀ earlier later v hg hv hn hc v' hl setup w b w' hb
    refine prepared_readsPlaced ?_ hb
    rw [endpoints_later hg c₀ w₀ hv hn hl,hc]
    exact hall

/-- Two endpoints, of which the second is at the given position and has a finding. -/
def twoPositions (position : String) : Context where
  project := some { kind := "Java", root := "/shop", files := [] }
  endpoints := [{ position := "Shop.java:L0-L1" },{ position }]
  findings := [⟨1,{ position },"",.incomplete⟩]

theorem positions_checked_shop :
    (∃ e reason, Endpoint.FirstFault (twoPositions "Shop.java").endpoints e reason ∧
      StopsAt (twoPositions "Shop.java") (.spanFormat e.position reason)) ∧
    ∃ b w, (prepareAnalysis shop.analysisSetup (twoPositions "Shop.java:L1-L1")).run.run shopWorld =
      (.ok b,w) ∧ b.ReadsPlaced := by
  constructor
  · have hfault : ∃ e ∈ (twoPositions "Shop.java").endpoints, ¬ e.Placed := by decide
    exact (positions_checked rfl).1 hfault
  · have hplaced : ∀ e ∈ (twoPositions "Shop.java:L1-L1").endpoints, e.Placed := by decide
    have hok : ((prepareAnalysis shop.analysisSetup (twoPositions "Shop.java:L1-L1")).run.run
        shopWorld).1.isOk = true := by decide
    rcases hb : (prepareAnalysis shop.analysisSetup (twoPositions "Shop.java:L1-L1")).run.run
      shopWorld with ⟨answer,w⟩
    rw [hb] at hok
    cases answer with
    | error e => cases hok
    | ok b => exact ⟨b,w,rfl,((positions_checked rfl).2 hplaced).1 _ _ _ _ hb⟩

end Pipeline

end EndpointAudit
