import EndpointAudit.Proofs.Stages
import EndpointAudit.Proofs.Transitions
import EndpointAudit.Proofs.Course

namespace EndpointAudit.Pipeline

open EndpointAudit.Graph Act Analysis Model Stages

/-- What a stage can return from a context, and the calls of the model it makes for that. -/
inductive Work (rounds : Nat) (c : Context) : String → List Call → Patch → String → Prop
  | detected (project : Project) :
    Work rounds c detectionName [] { project := some project } defaultLabel
  | extracted (endpoints : List Endpoint) :
    Work rounds c extractionName [] { endpoints := some endpoints } defaultLabel
  | analyzed {findings made} (answered : Answered c findings made) :
    Work rounds c analysisName made (finalizeAnalysis c findings) defaultLabel
  | reported (report : Report) :
    Work rounds c summaryName [] { report := some report } defaultLabel
  | reopened (report : Report) (left : c.round < rounds) :
    Work rounds c summaryName [] { report := some report, round := some (c.round + 1) } moreLabel

/-- The same where the run goes on, with the stage that comes next. -/
inductive Onward (rounds : Nat) (c : Context) : String → List Call → Patch → String → Prop
  | detected (project : Project) :
    Onward rounds c detectionName [] { project := some project } extractionName
  | extracted (endpoints : List Endpoint) :
    Onward rounds c extractionName [] { endpoints := some endpoints } analysisName
  | analyzed {findings made} (answered : Answered c findings made) :
    Onward rounds c analysisName made (finalizeAnalysis c findings) summaryName
  | reopened (report : Report) (left : c.round < rounds) :
    Onward rounds c summaryName [] { report := some report, round := some (c.round + 1) } analysisName

variable {p : Pipeline} {g : Graph World}

theorem graph_built (h : p.graph = .ok g) :
    Built p.stages edges (some detectionName) p.settings.cap g := by
  unfold graph at h
  cases hs : p.models.serves p.settings.selector with
  | error e => simp [hs,bind,Except.bind] at h
  | ok u => exact build_built (by simpa only [hs,bind,Except.bind] using h)

theorem Work.onward {rounds : Nat} {c : Context} {name next : String} {made : List Call}
    {patch : Patch} {label : String} (h : Work rounds c name made patch label)
    (he : ⟨name,label,next⟩ ∈ edges) : Onward rounds c name made patch next := by
  simp only [edges,List.mem_cons,Edge.mk.injEq,List.not_mem_nil,or_false,detectionName,
    extractionName,analysisName,summaryName,defaultLabel,moreLabel] at he
  cases h with
  | detected project =>
    obtain rfl : next = extractionName := by simpa [detectionName,extractionName,defaultLabel] using he
    exact .detected project
  | extracted endpoints =>
    obtain rfl : next = analysisName := by simpa [extractionName,analysisName,defaultLabel] using he
    exact .extracted endpoints
  | analyzed answered =>
    obtain rfl : next = summaryName := by simpa [analysisName,summaryName,defaultLabel] using he
    exact .analyzed answered
  | reported report => simp [summaryName,defaultLabel] at he
  | reopened report left =>
    obtain rfl : next = analysisName := by simpa [summaryName,analysisName,moreLabel] using he
    exact .reopened report left

/-- A stage that fails makes no calls, and one that does not fail does its work. -/
theorem stage_work {stage : Stage World} (h : stage ∈ p.stages) (c : Context) (w : World) :
    let r := (stage.run c).run.run w
    (∃ e, r = (.error e,r.2) ∧ r.2.calls = w.calls) ∨
      ∃ made patch label, r = (.ok (patch,label),r.2) ∧ r.2.calls = w.calls ++ made ∧
        Work p.settings.rounds c stage.name made patch label := by
  have quiet {x : Audit (Patch × String)} {name : String} {P : Patch × String → Prop}
      (hx : Keeps World.calls P x)
      (hp : ∀ patch label, P (patch,label) → Work p.settings.rounds c name [] patch label) :
      let r := x.run.run w
      (∃ e, r = (.error e,r.2) ∧ r.2.calls = w.calls) ∨
        ∃ made patch label, r = (.ok (patch,label),r.2) ∧ r.2.calls = w.calls ++ made ∧
          Work p.settings.rounds c name made patch label := by
    obtain ⟨hc,hr⟩ := hx w
    rcases he : x.run.run w with ⟨answer,w'⟩
    rw [he] at hc hr
    cases answer with
    | error e => exact .inl ⟨e,rfl,hc⟩
    | ok r =>
      obtain ⟨patch,label⟩ := r
      exact .inr ⟨[],patch,label,rfl,by simpa using hc,hp patch label (hr _ rfl)⟩
  simp only [stages,List.mem_cons,List.not_mem_nil,or_false] at h
  rcases h with rfl | rfl | rfl | rfl
  · refine quiet (detection_keeps c) ?_
    intro patch label hx
    obtain ⟨project,⟨⟩⟩ := hx
    exact .detected project
  · refine quiet (extraction_keeps p.toolchains c) ?_
    intro patch label hx
    obtain ⟨endpoints,⟨⟩⟩ := hx
    exact .extracted endpoints
  · rcases analysis_answers p.analysisSetup c w with he | ⟨findings,made,hr,hc,ha⟩
    · exact .inl he
    · exact .inr ⟨made,_,_,hr,hc,.analyzed ha⟩
  · refine quiet (summary_keeps p.settings.rounds c) ?_
    intro patch label hx
    rcases hx with ⟨report,⟨⟨⟩⟩ | ⟨hl,⟨⟩⟩⟩
    · exact .reported report
    · exact .reopened report hl

/-- The same for a visit. The snapshot after it makes no calls. -/
theorem visit_work (hb : Built p.stages edges (some detectionName) p.settings.cap g) (v : Visit g) :
    let r := v.upshot snapshot
    ∃ made, r.2.calls = v.world.calls ++ made ∧ (r.1.merged? = none → made = []) ∧
      ∀ patch label, r.1.merged? = some (patch,label) →
        Work p.settings.rounds v.context v.name made patch label := by
  have hm : g.stageAt v.stage ∈ p.stages := hb.stages_eq ▸ List.getElem_mem v.stage.isLt
  unfold Visit.upshot Visit.name
  rcases stage_work hm v.context v.world with ⟨e,hr,hc⟩ | ⟨made,patch,label,hr,hc,hw⟩
  · rw [hr]
    exact ⟨[],by simpa using hc,fun _ => rfl,by rintro patch label ⟨⟩⟩
  · obtain ⟨hs,_⟩ := @snapshot_keeps _ World.calls (fun _ _ => rfl) v.number (g.stageAt v.stage).name
      label (v.context.apply patch) (((g.stageAt v.stage).run v.context).run.run v.world).2
    rw [hr]
    simp only
    rcases ho : (snapshot _ _ _ _).run.run _ with ⟨heard,w⟩
    rw [ho] at hs
    refine ⟨made,?_⟩
    cases heard with
    | error e =>
      refine ⟨hs.trans hc,by rintro ⟨⟩,?_⟩
      intro _ _ hx
      cases hx
      exact hw
    | ok u =>
      refine ⟨hs.trans hc,by rintro ⟨⟩,?_⟩
      intro _ _ hx
      cases hx
      exact hw

theorem start_keeps (settings : Settings) (command : String) :
    Keeps World.calls (fun c => c.endpoints = [] ∧ c.findings = [] ∧ c.tally = none ∧ c.round = 0)
      (start settings command) := by
  unfold start
  refine .ofBind (P := fun _ => True) (fun _ => ⟨rfl,fun _ _ => trivial⟩) fun w _ => ?_
  refine .ofBind (keeps_withFiles (fun _ _ => rfl) _) fun session _ => ?_
  exact .ofBind (keeps_withFiles (fun _ _ => rfl) _) fun _ _ => .ofPure ⟨rfl,rfl,rfl,rfl⟩

end EndpointAudit.Pipeline
