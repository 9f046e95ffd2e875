import EndpointAudit.Proofs.Merges
import EndpointAudit.Proofs.PipelineSteps

namespace EndpointAudit

open Act

theorem withFiles_ok {α : Type} {f : FileTree → Except Error (α × FileTree)} {w w' : World} {a : α}
    (h : (World.withFiles f).run.run w = (.ok a,w')) :
    ∃ files, f w.files = .ok (a,files) ∧ w' = { w with files } := by
  change World.withFiles f w = (.ok a,w') at h
  unfold World.withFiles at h
  cases hf : f w.files with
  | error e =>
    rw [hf] at h
    cases h
  | ok r =>
    rw [hf] at h
    cases h
    exact ⟨_,rfl,rfl⟩

namespace Stages

/-- The summary of a context has been left in its session, and a round is asked for if one is needed
and allowed. -/
structure Closes (rounds : Nat) (c : Context) (w : World) (patch : Patch) (label : String)
    (w' : World) : Prop where
  unwritten : c.session = none → w' = w
  written : ∀ s, c.session = some s → ∃ path files, w' = { w with files } ∧
    s.writeJson w.files summaryFile (SummaryInput.ofContext c).report.toJson = .ok (path,files)
  reopens : (SummaryInput.ofContext c).goesOn rounds = true → label = moreLabel ∧
    patch = { report := some (SummaryInput.ofContext c).report, round := some (c.round + 1) }
  ends : (SummaryInput.ofContext c).goesOn rounds = false → label = defaultLabel ∧
    patch = { report := some (SummaryInput.ofContext c).report }

theorem summary_closes {rounds : Nat} {c : Context} {w w' : World} {patch : Patch} {label : String}
    (h : ((summary rounds).run c).run.run w = (.ok (patch,label),w')) :
    Closes rounds c w patch label w' := by
  have decided {w₁ : World} (h : ((if (SummaryInput.ofContext c).goesOn rounds then
        return ({ report := some (SummaryInput.ofContext c).report, round := some (c.round + 1) },
          moreLabel)
      else return ({ report := some (SummaryInput.ofContext c).report },defaultLabel) :
        Audit (Patch × String))).run.run w₁ = (.ok (patch,label),w')) :
      w' = w₁ ∧
      ((SummaryInput.ofContext c).goesOn rounds = true → label = moreLabel ∧
        patch = { report := some (SummaryInput.ofContext c).report, round := some (c.round + 1) }) ∧
      ((SummaryInput.ofContext c).goesOn rounds = false → label = defaultLabel ∧
        patch = { report := some (SummaryInput.ofContext c).report }) := by
    split at h
    · rename_i hg
      cases h
      exact ⟨rfl,fun _ => ⟨rfl,rfl⟩,fun hn => absurd (hg.symm.trans hn) (by decide)⟩
    · rename_i hg
      cases h
      exact ⟨rfl,fun hn => absurd hn hg,fun _ => ⟨rfl,rfl⟩⟩
  unfold summary Stage.ofPhases finalizeSummary at h
  simp only [pure_bind] at h
  cases hs : c.session with
  | none =>
    obtain ⟨rfl,hmore,hends⟩ := decided (by simpa [SummaryInput.ofContext,hs] using h)
    exact ⟨fun _ => rfl,fun s hx => absurd (hs.symm.trans hx) (by simp),hmore,hends⟩
  | some s =>
    rw [show (SummaryInput.ofContext c).session = some s from hs] at h
    simp only at h
    rw [run_seq] at h
    rcases hw : (World.withFiles fun t => s.writeJson t summaryFile
      (SummaryInput.ofContext c).report.toJson).run.run w with ⟨answer,w₁⟩
    rw [hw] at h
    cases answer with
    | error e => cases h
    | ok path =>
      obtain ⟨rfl,hmore,hends⟩ := decided h
      obtain ⟨files,hf,rfl⟩ := withFiles_ok hw
      refine ⟨fun hx => absurd (hs.symm.trans hx) (by simp),?_,hmore,hends⟩
      intro s' hx
      obtain rfl := Option.some.inj (hs.symm.trans hx)
      exact ⟨path,files,rfl,hf⟩

/-- The label tells which way the summary has decided. -/
theorem Closes.ended {rounds : Nat} {c : Context} {w w' : World} {patch : Patch}
    (h : Closes rounds c w patch defaultLabel w') :
    (SummaryInput.ofContext c).goesOn rounds = false ∧
      patch = { report := some (SummaryInput.ofContext c).report } := by
  cases hg : (SummaryInput.ofContext c).goesOn rounds with
  | true => exact absurd (h.reopens hg).1 (by decide)
  | false => exact ⟨rfl,(h.ends hg).2⟩

/-- No further round is asked for only if no endpoint lacks a finding or the rounds are used up. -/
theorem pending_or_round_of_ends {rounds : Nat} {c : Context}
    (h : (SummaryInput.ofContext c).goesOn rounds = false) : c.pending = [] ∨ rounds ≤ c.round := by
  unfold SummaryInput.goesOn at h
  rcases Bool.and_eq_false_iff.mp h with hp | hr
  · left
    have := of_decide_eq_false hp
    exact List.length_eq_zero_iff.mp (by simpa [SummaryInput.ofContext] using this)
  · right
    have := of_decide_eq_false hr
    exact Nat.le_of_not_lt this

end Stages

namespace Pipeline

open EndpointAudit.Graph Stages

variable {p : Pipeline} {g : Graph World}

/-- The stages of a pipeline are told apart by their names. -/
theorem stage_of_name {stage stage' : Stage World} (h : stage ∈ p.stages) (h' : stage' ∈ p.stages)
    (hn : stage.name = stage'.name) : stage = stage' := by
  have hd : (p.stages.map Stage.name).Nodup := by
    change [detectionName,extractionName,analysisName,summaryName].Nodup
    decide
  exact List.inj_on_of_nodup_map hd h h' hn

theorem visit_stage (hb : Built p.stages edges (some detectionName) p.settings.cap g) {v : Visit g}
    (stage : Stage World) (h : stage ∈ p.stages) (hn : v.name = stage.name) :
    g.stageAt v.stage = stage :=
  stage_of_name (hb.stages_eq ▸ List.getElem_mem v.stage.isLt) h hn

/-- Only a summary that asks for no further round ends a run. -/
theorem Work.last {rounds : Nat} {c : Context} {name : String} {made : List Model.Call}
    {patch : Patch} {label : String} (h : Work rounds c name made patch label)
    (hl : ¬ Leaves edges name label) : name = summaryName ∧ label = defaultLabel := by
  cases h with
  | reported report => exact ⟨rfl,rfl⟩
  | detected project => exact absurd ⟨_,.head _,rfl,rfl⟩ hl
  | extracted endpoints => exact absurd ⟨_,.tail _ (.head _),rfl,rfl⟩ hl
  | analyzed answered => exact absurd ⟨_,.tail _ (.tail _ (.head _)),rfl,rfl⟩ hl
  | reopened report left => exact absurd ⟨_,.tail _ (.tail _ (.tail _ (.head _))),rfl,rfl⟩ hl

/-- The last visit of a run that finished: the summary that closed it, in the world before the last
snapshot. -/
structure ClosedBy (rounds : Nat) (r : Course g) (v : Visit g) (patch : Patch) (w : World) : Prop where
  named : v.name = summaryName
  closes : Closes rounds v.context v.world patch defaultLabel w
  context_eq : r.context = v.context.apply patch
  noted : (snapshot v.number v.name defaultLabel r.context).run.run w = (.ok (),r.world)

theorem finished_closed (hb : Built p.stages edges (some detectionName) p.settings.cap g)
    {before : List (Visit g) → Fin g.stages.length → Context → World → Prop} {past : List (Visit g)}
    {r : Course g} {label : String} (h : Exits snapshot before past r)
    (hs : r.stop = .finished label) :
    label = defaultLabel ∧ ∃ visits v patch w, r.visits = visits ++ [v] ∧
      before (past ++ visits) v.stage v.context v.world ∧
      ClosedBy p.settings.rounds r v patch w := by
  obtain ⟨visits,v,patch,hv,stood,visited,hc,last⟩ := h.of_finished hs
  obtain ⟨made,_,_,hw⟩ := visit_work hb v
  obtain ⟨hn,rfl⟩ := (hw patch label (by rw [visited]; rfl)).last (hb.not_leaves last)
  obtain ⟨w,hr,ho⟩ := run_of_completed visited
  rw [visit_stage hb (summary p.settings.rounds) (by simp [stages]) hn] at hr
  exact ⟨rfl,visits,v,patch,w,hv,stood,hn,summary_closes hr,hc,hc ▸ ho⟩

theorem execute_course (hg : p.graph = .ok g) (c : Context) (w : World) :
    let r := g.course World.poll snapshot c w
    (p.execute c).run w = (⟨r.stop.outcome p.settings.cap,r.context⟩,r.world) := by
  unfold execute
  rw [hg]
  simp only
  rw [run_course,Course.ended,(graph_built hg).cap_eq]

/-- Whether a whole run in a given world starts and comes out as a test wants it. -/
def passes (p : Pipeline) (w₀ : World) (test : ∀ g : Graph World, Course g → Bool) : Bool :=
  match (start p.settings "audit").run.run w₀,p.graph with
  | (.ok c,w),.ok g => test g (g.course World.poll snapshot c w)
  | _,_ => false

theorem run_of_passes {w₀ : World} {test : ∀ g : Graph World, Course g → Bool}
    (h : p.passes w₀ test = true) :
    ∃ c w g, (start p.settings "audit").run.run w₀ = (.ok c,w) ∧ p.graph = .ok g ∧
      test g (g.course World.poll snapshot c w) = true := by
  unfold passes at h
  split at h
  · rename_i c w g hs hg
    exact ⟨c,w,g,hs,hg,h⟩
  · cases h

end Pipeline

end EndpointAudit
