import EndpointAudit.Proofs.Consistency
import EndpointAudit.Proofs.Undisturbed

namespace EndpointAudit.Analysis

/-- A task that reads no code. -/
def Task.Unreading : Task α → Prop
  | .readSpan _ _ => False
  | .lookUp _ next => ∀ answer, (next answer).Unreading
  | .generate _ _ next => ∀ text, (next text).Unreading
  | .note _ next => next.Unreading
  | _ => True

/-- A task that reads the code at a position first, and none after that. -/
def Task.ReadsFirst (position : String) : Task α → Prop
  | .readSpan read next => read = position ∧ ∀ code, (next code).Unreading
  | _ => False

/-- Lookups and the model answer by the request alone, and do not stop the run. -/
structure Steady (services : Services) : Prop where
  looked : ∀ symbol t t', (services.lookup services.root symbol t).answer =
    (services.lookup services.root symbol t').answer
  crashed : ∀ symbol t t', (services.lookup services.root symbol t).crash =
    (services.lookup services.root symbol t').crash
  asked : ∀ earlier earlier' g, (services.generator earlier g).outcome =
    (services.generator earlier' g).outcome
  lookup_goes_on : ∀ symbol t, (services.lookup services.root symbol t).stops = false
  generator_goes_on : ∀ earlier g, (services.generator earlier g).stops = false

namespace Task

theorem Unreading.bind {t : Task α} {f : α → Task β} (h : t.Unreading) (hf : ∀ a, (f a).Unreading) :
    (t >>= f).Unreading := by
  change (t.bind f).Unreading
  induction t with
  | done a => exact hf a
  | failed e | crashed message => trivial
  | readSpan position next ih => exact h.elim
  | lookUp symbol next ih => exact fun answer => ih answer (h answer)
  | generate index g next ih => exact fun text => ih text (h text)
  | note entry next ih => exact ih h

theorem ReadsFirst.bind {position : String} {t : Task α} {f : α → Task β}
    (h : t.ReadsFirst position) (hf : ∀ a, (f a).Unreading) : (t >>= f).ReadsFirst position := by
  change (t.bind f).ReadsFirst position
  cases t with
  | readSpan read next => exact ⟨h.1,fun code => (h.2 code).bind hf⟩
  | done | failed | crashed | lookUp | generate | note => exact h.elim

variable {services : Services} {t t' : Task α} {w w' : World}

theorem Unreading.step (h : t.Unreading) (hs : t.Steps services w t' w') : t'.Unreading := by
  cases hs with
  | read | unreadable => exact h.elim
  | found | completed => exact h _
  | broken | refused | crashed => trivial
  | noted => exact h

/-- A task that reads no code ends the same in all worlds. -/
theorem Unreading.run_eq {t : Task α} (h : t.Unreading) (hs : Steady services) (w w' : World) :
    (t.run services w).1 = (t.run services w').1 := by
  induction t generalizing w w' with
  | done a | failed e | crashed message => rfl
  | readSpan position next ih => exact h.elim
  | lookUp symbol next ih =>
    simp only [Task.run,Services.definition,hs.looked symbol w.files w'.files,
      hs.crashed symbol w.files w'.files]
    cases (services.lookup services.root symbol w'.files).crash with
    | none => exact ih _ (h _) _ _
    | some message => rfl
  | generate index g next ih =>
    simp only [Task.run,Services.answer,
      hs.asked (w.calls.map Model.Call.generation) (w'.calls.map Model.Call.generation) g]
    cases (services.generator (w'.calls.map Model.Call.generation) g).outcome with
    | completion text => exact ih text (h text) _ _
    | failed e | crashed message => rfl
  | note entry next ih => exact ih h _ _

/-- A task that reads first ends as it would in any world where its position reads the same. -/
theorem ReadsFirst.step {position : String} (h : t.ReadsFirst position) (hs : Steady services)
    {w₀ : World} (hc : services.code position w = services.code position w₀)
    (steps : t.Steps services w t' w') :
    t'.Unreading ∧ ∀ w₁, (t'.run services w₁).1 = (t.run services w₀).1 := by
  cases steps with
  | read hr =>
    obtain ⟨rfl,hn⟩ := h
    refine ⟨hn _,?_⟩
    intro w₁
    rw [(Steps.read (hc.symm.trans hr)).run]
    exact (hn _).run_eq hs w₁ w₀
  | unreadable hr =>
    obtain ⟨rfl,_⟩ := h
    refine ⟨trivial,?_⟩
    intro w₁
    rw [(Steps.unreadable (hc.symm.trans hr)).run]
    rfl
  | found | broken | completed | refused | crashed | noted => exact h.elim

theorem ReadsFirst.unended {position : String} {t : Task α} (h : t.ReadsFirst position) :
    t.ending? = none := by
  cases t with
  | readSpan read next => rfl
  | done | failed | crashed | lookUp | generate | note => exact h.elim

/-- Where lookups and the model do not stop the run, no step does. -/
theorem Steps.cancelled (steps : t.Steps services w t' w') (hs : Steady services) :
    w'.cancelled = w.cancelled := by
  cases steps with
  | read | unreadable => rfl
  | found looked | broken looked =>
    refine (congrArg (·.2.cancelled) looked.symm).trans ?_
    simp [Services.definition,hs.lookup_goes_on]
  | completed asked | refused asked | crashed asked =>
    refine (congrArg (·.2.cancelled) asked.symm).trans ?_
    simp [Services.answer,hs.generator_goes_on]
  | noted => exact Services.log_cancelled _ w

end Task

theorem gather_unreading (symbols : List String) : (gather symbols).Unreading := by
  induction symbols with
  | nil => trivial
  | cons symbol symbols ih =>
    intro answer
    refine ih.bind ?_
    intro rest
    split <;> trivial

theorem analyze_readsFirst (plan : Plan) (index : Nat) (e : Endpoint) :
    (analyze plan index e).ReadsFirst e.position := by
  have hp : (prompt plan e).ReadsFirst e.position :=
    ⟨rfl,fun _ => (gather_unreading e.symbols).bind fun _ => trivial⟩
  unfold analyze
  refine hp.bind ?_
  intro prompt
  simp only [Task.Unreading]
  exact fun _ => trivial

/-- How the analysis of a job ends on its own. -/
def alone (plan : Plan) (services : Services) (w : World) (job : Job) : Ending Finding :=
  ((analyze plan job.index job.endpoint).run services w).1

/-- On its own a job ends the same in all worlds where its position reads the same. -/
theorem alone_eq (plan : Plan) {services : Services} (hs : Steady services) {w w₀ : World}
    {job : Job}
    (hr : services.code job.endpoint.position w = services.code job.endpoint.position w₀) :
    alone plan services w job = alone plan services w₀ job := by
  have hf := analyze_readsFirst plan job.index job.endpoint
  have steps := Task.step_steps services hf.unended w
  unfold alone
  rw [steps.run]
  exact (hf.step hs hr steps).2 _

/-- However a task is carried out, its ending accounts for the calls it made. -/
theorem Task.Accounts.run {job : Job} {made : List Model.Call} {t : Task Finding}
    (h : t.Accounts job made) (services : Services) (w : World) :
    ∃ made', (t.run services w).1.Accounts job made' := by
  have hk {t : Task Finding} {w : World} {t' : Task Finding} {w' : World}
      (hs : t.Steps services w t' w') : (∃ made, t.Accounts job made) →
      ∃ made, t'.Accounts job made := by
    intro ⟨made,ha⟩
    obtain ⟨new,_,_,hn⟩ := ha.step hs
    exact ⟨made ++ new,hn⟩
  obtain ⟨t',he,made',ha⟩ := t.run_keeps hk ⟨made,h⟩ (w := w)
  exact ⟨made',ha.ending he⟩

/-- A finding is about the job that yields it. -/
theorem alone_finding {plan : Plan} {services : Services} {w : World} {job : Job} {f : Finding}
    (h : alone plan services w job = .done f) : f.index = job.index := by
  obtain ⟨made,ha⟩ := (analyze_accounts plan job).run services w
  change (alone plan services w job).Accounts job made at ha
  rw [h] at ha
  exact ha.1

namespace Pool

variable {plan : Plan} {services : Services} {jobs : List Job} {w₀ : World}

/-- Where a job stands if it is to end as on its own. -/
def Phase.Faithful (plan : Plan) (services : Services) (w₀ : World) (job : Job) : Phase → Prop
  | .waiting => True
  | .working t => t = analyze plan job.index job.endpoint ∨
      t.Unreading ∧ ∀ w, (t.run services w).1 = alone plan services w₀ job
  | .arrived a => a = .ended (alone plan services w₀ job)

theorem Change.faithful (hs : Steady services) {job : Job} {before after : Phase} {w w' : World}
    (change : Change plan services job before w after w') (hc : w.cancelled = false)
    (hr : services.code job.endpoint.position w = services.code job.endpoint.position w₀)
    (h : before.Faithful plan services w₀ job) : after.Faithful plan services w₀ job := by
  have hf := analyze_readsFirst plan job.index job.endpoint
  cases change with
  | start going => exact .inl rfl
  | skip stopped =>
    rw [hc] at stopped
    cases stopped
  | step steps =>
    rcases h with rfl | ⟨hu,ha⟩
    · exact .inr (hf.step hs hr steps)
    · refine .inr ⟨hu.step steps,?_⟩
      intro w₁
      rw [(hu.step steps).run_eq hs w₁ w',← steps.run]
      exact ha w
  | finish ended =>
    rcases h with rfl | ⟨hu,ha⟩
    · rw [hf.unended] at ended
      cases ended
    · rw [Phase.Faithful,← ha w,Task.run_ended ended services w]

theorem isolation_discipline (plan : Plan) (hs : Steady services) (jobs : List Job) (w₀ : World) :
    Discipline plan services False
      (fun w => ∀ job ∈ jobs, services.code job.endpoint.position w =
        services.code job.endpoint.position w₀)
      (fun w => w.cancelled = false)
      (fun job phase _ => job ∈ jobs ∧ phase.Faithful plan services w₀ job) where
  cancels may := may.elim
  outlasts may := may.elim
  world := by
    intro job before w after w' change hc _
    cases change with
    | start going => exact hc
    | skip stopped => exact hc
    | step steps => exact (steps.cancelled hs).trans hc
    | finish ended => exact hc
  own := by
    intro job before w after w' change hg hc ⟨hm,h⟩
    exact ⟨hm,change.faithful hs hc (hg job hm) h⟩
  others := by
    intro _ _ _ _ _ _ _ _ _ _ _ h
    exact h

/-- An undisturbed batch yields the findings that its jobs yield on their own. -/
theorem run_alone (hs : Steady services) (hd : (jobs.map Job.index).Nodup)
    (hu : Undisturbed plan services jobs w₀) (hc : w₀.cancelled = false) (workers : Nat)
    {turns : List Turn} (ht : .cancel ∉ turns) :
    ((Pool.run plan services workers jobs turns w₀).1.filterMap fun x => x.2.finding?).Perm
      (jobs.filterMap fun job => (alone plan services w₀ job).result?) := by
  obtain ⟨_,ha,hp⟩ := (isolation_discipline plan hs jobs w₀).run hd workers (fun h => ht h)
    (fun s hm => hu s.1 s.2 hm) hc fun job hm => ⟨hm,trivial⟩
  refine List.Perm.trans (List.Perm.of_eq ?_) (hp.filterMap _)
  rw [List.filterMap_map]
  refine List.filterMap_congr ?_
  intro x hx
  rw [(ha x hx).2]
  simp only [Function.comp_apply]
  cases alone plan services w₀ x.1 <;> rfl

end Pool

end EndpointAudit.Analysis
