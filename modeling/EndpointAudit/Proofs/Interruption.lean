import EndpointAudit.Proofs.Cancellation
import EndpointAudit.Proofs.Closing
import EndpointAudit.Proofs.Consistency

namespace EndpointAudit

open Act Analysis Context

namespace Stages

theorem finding?_eq_some_iff {a : Arrival} {f : Finding} :
    a.finding? = some f ↔ a = .ended (.done f) := by
  rcases a with (g | e | message) | _ <;> simp [Arrival.finding?]

theorem finding?_eq_none_iff {a : Arrival} :
    a.finding? = none ↔ a = .skipped ∨ a.isFailure = true := by
  rcases a with (g | e | message) | _ <;> simp [Arrival.finding?,Arrival.isFailure]

/-- What a batch over the pending endpoints of a context adds to it. -/
structure Added (c d : Context) (arrivals : List (Job × Arrival)) : Prop where
  all : (arrivals.map Prod.fst).Perm (jobsOf c)
  findings : ∀ f, f ∈ d.findings ↔ f ∈ c.findings ∨ ∃ job, (job,.ended (.done f)) ∈ arrivals
  pending : ∀ i, i ∈ d.pending ↔
    ∃ x ∈ arrivals, x.1.index = i ∧ (x.2 = .skipped ∨ x.2.isFailure = true)
  tally : d.tally = some (Completion.tally (d.findings.map Finding.text))

theorem added_of_accounts {c : Context} (hc : c.Consistent) {made : List Model.Call}
    {arrivals : List (Job × Arrival)} (hi : ∀ call ∈ made, call.index ∈ c.pending)
    (hall : (arrivals.map Prod.fst).Perm (jobsOf c))
    (haccounts : ∀ x ∈ arrivals,
      (Pool.Phase.arrived x.2).Accounts x.1 (Model.callsAbout x.1.index made)) :
    Added c (c.apply (finalizeAnalysis c (arrivals.filterMap fun x => x.2.finding?))) arrivals := by
  have answered := run_answered hi hall haccounts
  have hfindings : ∀ f, f ∈ (c.apply (finalizeAnalysis c
      (arrivals.filterMap fun x => x.2.finding?))).findings ↔
        f ∈ c.findings ∨ ∃ job, (job,.ended (.done f)) ∈ arrivals := by
    intro f
    rw [apply_findings hc.ascending rfl]
    unfold finalizeAnalysis
    rw [mem_mergeFindings_of_nodup (answered.index_nodup hc.ascending)]
    simp only [List.mem_filterMap,finding?_eq_some_iff,Prod.exists,exists_eq_right]
  refine ⟨hall,hfindings,?_,?_⟩
  · intro i
    rw [mem_pending]
    constructor
    · intro ⟨hl,hf⟩
      have hp : i ∈ (jobsOf c).map Job.index := by
        rw [jobsOf_index]
        exact mem_pending.mpr ⟨hl,fun f hm => hf f ((hfindings f).mpr (.inl hm))⟩
      obtain ⟨job,hj,rfl⟩ := List.mem_map.mp hp
      obtain ⟨x,hx,rfl⟩ := List.mem_map.mp (hall.mem_iff.mpr hj)
      refine ⟨x,hx,rfl,finding?_eq_none_iff.mp ?_⟩
      cases hxf : x.2.finding? with
      | none => rfl
      | some f =>
        have hm : (x.1,.ended (.done f)) ∈ arrivals := finding?_eq_some_iff.mp hxf ▸ hx
        exact absurd (accounts_finding (haccounts x hx) hxf).1
          (hf f ((hfindings f).mpr (.inr ⟨x.1,hm⟩)))
    · intro ⟨x,hx,hxi,hxa⟩
      have hp : i ∈ c.pending := by
        rw [← jobsOf_index,← hxi]
        exact List.mem_map_of_mem (hall.mem_iff.mp (List.mem_map_of_mem hx))
      obtain ⟨hl,hold⟩ := mem_pending.mp hp
      refine ⟨hl,?_⟩
      intro f hf he
      rcases (hfindings f).mp hf with hf | ⟨job,hm⟩
      · exact hold f hf he
      · have hfi := (accounts_finding (haccounts _ hm) rfl).1
        have hsame : x = (job,.ended (.done f)) :=
          List.inj_on_of_nodup_map (arrivals_nodup hall) hx hm (hxi.trans (he.symm.trans hfi))
        rw [← finding?_eq_none_iff,hsame] at hxa
        cases hxa
  · have hw : Pipeline.Work 0 c analysisName made _ defaultLabel := .analyzed answered
    exact congrArg some ((hw.consistent hc).tallied _ rfl)

/-- However a batch takes its turns, its findings join the old ones, and only what it skipped or failed
at is left pending. -/
theorem added_of_run {c : Context} (hc : c.Consistent) (plan : Plan) (services : Services)
    (workers : Nat) (turns : List Turn) (w : World) :
    let arrivals := (Pool.run plan services workers (jobsOf c) turns w).1
    Added c (c.apply (finalizeAnalysis c (arrivals.filterMap fun x => x.2.finding?))) arrivals := by
  obtain ⟨made,_,hi,haccounts,hall⟩ :=
    Pool.run_accounted plan services workers (jobsOf_nodup c) turns w
  rw [jobsOf_index] at hi
  exact added_of_accounts hc hi hall haccounts

end Stages

namespace Pipeline

open EndpointAudit.Graph Stages

variable {p : Pipeline} {g : Graph World}

/-- Between two stages the run is stopped exactly if it is cancelled by then. -/
theorem poll_stops (w : World) :
    (World.poll.run w).1 = (World.poll.run w).2.cancelled ∧
      (w.cancelled = true → (World.poll.run w).1 = true) := by
  change (World.poll w).1 = (World.poll w).2.cancelled ∧ (w.cancelled = true → (World.poll w).1 = true)
  unfold World.poll
  split
  · exact ⟨rfl,id⟩
  · refine ⟨rfl,?_⟩
    intro h
    simp [h]

/-- The tasks and the world with which the batch of an execution of the analysis begins. -/
def begunBatch (v : Visit g) (b : Batch) : Pool × World :=
  (.ofJobs b.jobs,begun b.jobs.length v.world)

/-- The batch of an execution of the analysis: what it was made of, where it has passed between its
turns, and where it has ended. -/
structure Batched (p : Pipeline) (v : Visit g) (b : Batch) (done : Pool × World) : Prop where
  prepared : (prepareAnalysis p.analysisSetup v.context).run.run v.world = (.ok b,v.world)
  jobs_eq : b.jobs = jobsOf v.context
  run_eq : Pool.run b.plan b.services p.settings.workers b.jobs (v.world.turns.headD [])
    (begun b.jobs.length v.world) = (done.1.arrivals,done.2)
  passes : ∀ turns rest, v.world.turns.headD [] = turns ++ rest →
    let m := Pool.takeTurns b.plan b.services p.settings.workers (begunBatch v b).1
      (begunBatch v b).2 turns
    Pool.Moves b.plan b.services True (begunBatch v b) m ∧
      Pool.Moves b.plan b.services True m done
  finished : ∀ slot ∈ done.1.slots, slot.standing = .handedIn

/-- An execution of the analysis that leaves the run cancelled was cancelled in its batch. -/
theorem analysis_batched (hb : Built p.stages edges (some detectionName) p.settings.cap g)
    {v : Visit g} (hn : v.name = analysisName) (going : v.world.cancelled = false) {patch : Patch}
    {label : String} {w : World} (visited : v.upshot snapshot = (.completed patch label,w))
    (stops : w.cancelled = true) :
    ∃ b done, Batched p v b done ∧ done.2.cancelled = true ∧ label = defaultLabel ∧
      patch = finalizeAnalysis v.context (done.1.arrivals.filterMap fun x => x.2.finding?) := by
  obtain ⟨w₁,hr,ho⟩ := run_of_completed visited
  have hkeeps := (@snapshot_keeps _ World.cancelled (fun _ _ => rfl) v.number v.name label
    (v.context.apply patch) w₁).1
  rw [ho] at hkeeps
  rw [visit_stage hb (analysis p.analysisSetup) (by simp [stages]) hn] at hr
  rcases analysis_run p.analysisSetup v.context v.world with
    ⟨e,_,he⟩ | ⟨b,hp,hj,⟨_,he⟩ | ⟨hne,progress,he⟩⟩
  · rw [hr] at he
    cases he
  · rw [hr] at he
    cases he
    rw [stops,going] at hkeeps
    cases hkeeps
  · rw [hr] at he
    cases he
    refine ⟨b,_,⟨hp,hj,rfl,?_,Pool.finish_handedIn _ _⟩,?_,rfl,rfl⟩
    · intro turns rest ht
      rw [ht]
      exact Pool.moves_between p.settings.workers turns rest (fun _ => trivial) _ _
    · rw [← stops]
      exact hkeeps.symm

/-- Where a run is cancelled while the tasks of the analysis are at work, at whatever moment, and the
stage is still completed: from that moment on only tasks that were already at work ask the model or
anything else of the world, and those that were waiting are skipped; those at work end, and what they
find is kept beside all earlier findings; pending are exactly the endpoints that were skipped or failed
at, and the tally is that of the texts that are kept. The run ends there as interrupted, whatever the
cap. -/
theorem execute_interrupted (p : Pipeline) {command : String} {c : Context} {w₀ w : World}
    (hs : (start p.settings command).run.run w₀ = (.ok c,w)) {g : Graph World}
    (hg : p.graph = .ok g) {v : Visit g} (hv : v ∈ (g.course World.poll snapshot c w).visits)
    (hn : v.name = analysisName) {patch : Patch} {label : String} {w' : World}
    (visited : v.upshot snapshot = (.completed patch label,w')) (stops : w'.cancelled = true) :
    let d := v.context.apply patch
    v.world.cancelled = false ∧
    (∃ b done, Batched p v b done ∧ done.2.cancelled = true ∧
      (∀ m, Pool.Moves b.plan b.services True (begunBatch v b) m →
        Pool.Moves b.plan b.services True m done → m.2.cancelled = true →
          (∀ s s' job request, Pool.Moves b.plan b.services True m s →
            Pool.Asks b.services job request s s' → m.1.Works job) ∧
          (∀ job, m.1.Waits job → (job,.skipped) ∈ done.1.arrivals) ∧
          (∀ job, m.1.Works job → ∃ ending, (job,.ended ending) ∈ done.1.arrivals) ∧
          ∀ x ∈ m.1.arrivals, x ∈ done.1.arrivals) ∧
      Added v.context d done.1.arrivals) ∧
    (p.execute c).run w = (⟨.error .interrupted,d⟩,(World.poll.run w').2) ∧
    ∃ pre, (g.course World.poll snapshot c w).visits = pre ++ [v] := by
  intro d
  have hb := graph_built hg
  have hruns : Runs g World.poll snapshot g.cap g.start c w (g.course World.poll snapshot c w) :=
    course_runs c w
  obtain ⟨_,hf,ht,_⟩ := (start_keeps p.settings command w₀).2 c (by rw [hs])
  obtain ⟨before,after,hsplit⟩ := List.append_of_mem hv
  have hconsistent : v.context.Consistent :=
    ((consistent_upkeep hb).lasting.visits hruns [] ⟨consistent_of_empty hf ht,by simp⟩ hsplit).1
  have hgoing : v.world.cancelled = false := by
    obtain ⟨w₁,hp⟩ := hruns.polled hv
    have hstops := (poll_stops w₁).1
    rw [hp] at hstops
    exact hstops.symm
  obtain ⟨b,done,hbatch,hcancelled,rfl,rfl⟩ := analysis_batched hb hn hgoing visited stops
  have hleaves : Leaves edges (g.stageAt v.stage).name defaultLabel :=
    ⟨_,.tail _ (.tail _ (.head _)),hn.symm,rfl⟩
  obtain ⟨next,edge⟩ := Option.isSome_iff_exists.mp ((hb.next_isSome_iff _ _).mpr hleaves)
  obtain ⟨pre,hcourse⟩ := hruns.cancelled_after hv visited edge ((poll_stops w').2 stops)
  refine ⟨hgoing,⟨b,done,hbatch,hcancelled,?_,?_⟩,?_,pre,by rw [hcourse]⟩
  · intro m _ hrest hm
    exact Pool.cut_off hrest hm hbatch.finished
  · have hadded := added_of_run hconsistent b.plan b.services p.settings.workers
      (v.world.turns.headD []) (begun b.jobs.length v.world)
    rw [← hbatch.jobs_eq,hbatch.run_eq] at hadded
    exact hadded
  · rw [execute_course hg,hcourse]
    rfl

/-- A toolchain that extracts two endpoints of one class. -/
def twinTools : Toolchain :=
  { shopTools with
    extract := fun _ target t =>
      let list := "[[\"S\",\"a\",\"Shop.java:L0-L1\",\"\",[\"GET\",\"/\"]]," ++
        "[\"S\",\"b\",\"Shop.java:L0-L1\",\"\",[\"GET\",\"/\"]]]"
      let path := Path.join target "api_extraction.json"
      { answer := .ok {}, files := t.put ((Path.pieces path).drop 1) (.file list.toUTF8 false) } }

/-- An audit of two endpoints that may execute no stage after its analysis. -/
def twinShop : Pipeline :=
  { shop with settings := { shop.settings with cap := 3 }, toolchains := [twinTools] }

/-- The user cancels when the first endpoint is at work and the second one waits. -/
def twinWorld : World :=
  { shopWorld with turns := [[.task 0,.cancel]] }

/-- The last visit is the analysis, was cancelled, and has come to the first endpoint only. -/
def stopsMidway (g : Graph World) (r : Course g) : Bool :=
  match r.visits.getLast? with
  | none => false
  | some v =>
    match v.upshot snapshot with
    | (.completed patch _,w) =>
      v.name == analysisName && w.cancelled &&
        (v.context.apply patch).findings.map Finding.index == [0] &&
        (v.context.apply patch).pending == [1]
    | _ => false

theorem execute_interrupted_twin :
    ∃ c w g v patch label w', (start twinShop.settings "audit").run.run twinWorld = (.ok c,w) ∧
      twinShop.graph = .ok g ∧ v ∈ (g.course World.poll snapshot c w).visits ∧
      v.name = analysisName ∧ v.upshot snapshot = (.completed patch label,w') ∧
      w'.cancelled = true ∧ ((twinShop.execute c).run w).1.outcome = .error .interrupted ∧
      ((twinShop.execute c).run w).1.context.findings.map Finding.index = [0] ∧
      ((twinShop.execute c).run w).1.context.pending = [1] := by
  have hpasses : twinShop.passes twinWorld stopsMidway = true := by decide +kernel
  obtain ⟨c,w,g,hs,hg,ht⟩ := run_of_passes hpasses
  unfold stopsMidway at ht
  split at ht
  · cases ht
  · rename_i v hlast
    split at ht
    · rename_i patch label w' visited
      simp only [Bool.and_eq_true,beq_iff_eq] at ht
      obtain ⟨⟨⟨hn,stops⟩,hfound⟩,hpending⟩ := ht
      have hv : v ∈ (g.course World.poll snapshot c w).visits := List.mem_of_getLast? hlast
      obtain ⟨_,_,hr,_⟩ := execute_interrupted twinShop hs hg hv hn visited stops
      exact ⟨c,w,g,v,patch,label,w',hs,hg,hv,hn,visited,stops,by rw [hr],by rw [hr]; exact hfound,
        by rw [hr]; exact hpending⟩
    · cases ht

end Pipeline

end EndpointAudit
