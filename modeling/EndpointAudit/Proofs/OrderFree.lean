import EndpointAudit.Proofs.Isolation

namespace EndpointAudit.Stages

open EndpointAudit.Graph Act Analysis Context Model

variable {setup : AnalysisSetup} {c : Context} {w : World} {project : Project} {tool : Toolchain}
  {template : Prompt.Template}

/-- All that the analysis looks up before its batch is there. -/
structure Ready (setup : AnalysisSetup) (c : Context) (w : World) (project : Project)
    (tool : Toolchain) (template : Prompt.Template) : Prop where
  project_eq : c.project = some project
  valid : Endpoint.validateAll c.endpoints = .ok ()
  supported : Toolchain.select setup.toolchains project.kind = .ok tool
  loaded : setup.prompt.load w.files = .ok template

theorem Ready.prepare (h : Ready setup c w project tool template) :
    (prepareAnalysis setup c).run.run w = (.ok (setup.batch c project tool template),w) := by
  have hv : (MonadExcept.ofExcept (Endpoint.validateAll c.endpoints) : Audit Unit) = pure () := by
    rw [h.valid]
    rfl
  have ht : (MonadExcept.ofExcept (Toolchain.select setup.toolchains project.kind) :
      Audit Toolchain) = pure tool := by
    rw [h.supported]
    rfl
  have hl : (World.readFiles setup.prompt.load).run.run w = (.ok template,w) :=
    Prod.ext h.loaded rfl
  unfold prepareAnalysis
  simp only [h.project_eq,pure_bind,hv,ht]
  rw [run_seq,hl]
  rfl

theorem Ready.run (h : Ready setup c w project tool template) {findings : List Finding} {w' : World}
    (he : (executeAnalysis setup.workers (setup.batch c project tool template)).run.run w =
      (.ok findings,w')) :
    ((analysis setup).run c).run.run w = (.ok (finalizeAnalysis c findings,defaultLabel),w') := by
  unfold analysis Stage.ofPhases
  simp only
  rw [run_seq,h.prepare]
  simp only
  rw [run_seq,he]
  rfl

/-- The findings that the jobs of a batch yield on their own. -/
def solos (b : Batch) (w : World) : List Finding :=
  b.jobs.filterMap fun job => (alone b.plan b.services w job).result?

theorem mem_solos {b : Batch} {f : Finding} :
    f ∈ solos b w ↔ ∃ job ∈ b.jobs, alone b.plan b.services w job = .done f := by
  have hr (ending : Ending Finding) : ending.result? = some f ↔ ending = .done f := by
    cases ending <;> simp [Ending.result?]
  simp only [solos,List.mem_filterMap,hr]

/-- A batch hands in what its jobs yield on their own, in the order in which they arrive. -/
theorem executeAnalysis_solos {b : Batch} (hd : (b.jobs.map Job.index).Nodup)
    (hs : Steady b.services) (hu : Undisturbed b.plan b.services b.jobs w)
    (hc : w.cancelled = false) (workers : Nat) {turns : List (List Turn)}
    (ht : ∀ batch ∈ turns.head?, .cancel ∉ batch) {refusals : List (Option String)}
    (hr : refusals.head?.join = none) :
    ∃ findings w', (executeAnalysis workers b).run.run { w with turns, refusals } = (.ok findings,w') ∧
      findings.Perm (solos b w) := by
  by_cases hj : b.jobs = []
  · exact ⟨[],_,executeAnalysis_nil hj workers _,by simp [solos,hj]⟩
  · obtain ⟨progress,he⟩ := executeAnalysis_run hj workers (w := { w with turns, refusals }) hr
    have hn : .cancel ∉ turns.headD [] := by
      cases turns with
      | nil => simp
      | cons batch turns => exact ht batch rfl
    have hp := Pool.run_alone hs hd
      (hu.showing (w.progress ++ [.start b.jobs.length "Analyzing APIs"]) turns.tail refusals.tail)
      hc workers hn
    refine ⟨_,_,he,hp.trans (List.Perm.of_eq (List.filterMap_congr ?_))⟩
    intro job _
    exact congrArg Ending.result? (alone_eq b.plan hs rfl)

/-- The context with the findings of a batch, which are those its jobs yield on their own. -/
def settledBy (c : Context) (b : Batch) (w : World) : Context :=
  let findings := mergeFindings c.findings (solos b w)
  { c with findings, tally := some (Completion.tally (findings.map Finding.text)) }

theorem apply_finalize (c : Context) (findings : List Finding) :
    c.apply (finalizeAnalysis c findings) =
      { c with
        findings := (c.apply (finalizeAnalysis c findings)).findings
        tally := some (Completion.tally ((c.findings ++ findings).map Finding.text)) } := by
  cases c
  rfl

/-- Findings that are those of the batch in another order settle the context. -/
theorem apply_settles {b : Batch} (ha : Ascending c.findings) {findings : List Finding}
    (hp : findings.Perm (solos b w)) (hn : ((c.findings ++ findings).map Finding.index).Nodup) :
    c.apply (finalizeAnalysis c findings) = settledBy c b w := by
  have hf : (c.apply (finalizeAnalysis c findings)).findings = mergeFindings c.findings (solos b w) :=
    (apply_findings ha rfl).trans (mergeFindings_perm hp hn)
  have hp' : (c.findings ++ findings).Perm (c.findings ++ solos b w) := hp.append_left c.findings
  have hm : (mergeFindings c.findings (solos b w)).Perm (c.findings ++ findings) :=
    (mergeFindings_perm_append ((hp'.map Finding.index).nodup_iff.mp hn)).trans hp'.symm
  rw [apply_finalize,hf,settledBy]
  rw [Completion.tally_perm (hm.map Finding.text)]

theorem Ready.index_nodup (h : Ready setup c w project tool template) (ha : Ascending c.findings)
    {findings : List Finding} {w' : World}
    (he : (executeAnalysis setup.workers (setup.batch c project tool template)).run.run w =
      (.ok findings,w')) : ((c.findings ++ findings).map Finding.index).Nodup := by
  have hrun := h.run he
  rcases analysis_answers setup c w with ⟨e,hr,_⟩ | ⟨findings',made,hr,_,ha'⟩
  · rw [hrun] at hr
    cases hr
  · rw [hrun] at hr
    have hpatch := (Prod.mk.inj (Except.ok.inj (Prod.mk.inj hr).1)).1
    obtain rfl : findings = findings' := congrArg Patch.findings hpatch
    exact ha'.index_nodup ha

/-- A stage that has something to analyze but no workers fails for that reason and leaves all as it is. -/
theorem analysis_refused (h : Ready setup c w project tool template) (hp : c.pending ≠ [])
    {reason : String} (hr : w.refusals.head?.join = some reason) :
    ((analysis setup).run c).run.run w =
      (.error (.config ("cannot start worker pool: " ++ reason)),{ w with refusals := w.refusals.tail }) := by
  have hj : (setup.batch c project tool template).jobs ≠ [] := by
    intro he
    have hi := congrArg (List.map Job.index) he
    change (jobsOf c).map Job.index = [] at hi
    rw [jobsOf_index] at hi
    exact hp hi
  unfold analysis Stage.ofPhases
  simp only
  rw [run_seq,h.prepare]
  simp only
  rw [run_seq,executeAnalysis_refused hj setup.workers hr]

/-- The stage leads to that context. -/
theorem analysis_settles (h : Ready setup c w project tool template)
    (ha : Ascending c.findings) (hs : Steady (setup.batch c project tool template).services)
    (hu : Undisturbed (setup.batch c project tool template).plan
      (setup.batch c project tool template).services (jobsOf c) w)
    (hc : w.cancelled = false) (workers : Nat) {turns : List (List Turn)}
    (ht : ∀ batch ∈ turns.head?, .cancel ∉ batch) {refusals : List (Option String)}
    (hr : refusals.head?.join = none) :
    let b := setup.batch c project tool template
    ∃ patch w', ((analysis { setup with workers }).run c).run.run { w with turns, refusals } =
        (.ok (patch,defaultLabel),w') ∧ c.apply patch = settledBy c b w ∧
      ((c.findings ++ solos b w).map Finding.index).Nodup := by
  intro b
  have hd : (b.jobs.map Job.index).Nodup := by
    change ((jobsOf c).map Job.index).Nodup
    rw [jobsOf_index]
    exact c.pending_nodup
  obtain ⟨findings,w',he,hp⟩ := executeAnalysis_solos hd hs hu hc workers ht hr
  have hready : Ready { setup with workers } c { w with turns, refusals } project tool template :=
    ⟨h.project_eq,h.valid,h.supported,h.loaded⟩
  have hn := hready.index_nodup ha he
  have hperm := (hp.append_left c.findings).map Finding.index
  exact ⟨_,w',hready.run he,apply_settles ha hp hn,hperm.nodup_iff.mp hn⟩

theorem mem_settledBy {b : Batch} (hn : ((c.findings ++ solos b w).map Finding.index).Nodup)
    {f : Finding} : f ∈ (settledBy c b w).findings ↔
      f ∈ c.findings ∨ ∃ job ∈ b.jobs, alone b.plan b.services w job = .done f := by
  change f ∈ mergeFindings c.findings (solos b w) ↔ _
  rw [mem_mergeFindings_of_nodup hn,mem_solos]

/-- An endpoint that was not pending keeps what it had. -/
theorem settledBy_old {b : Batch} (hj : b.jobs = jobsOf c)
    (hn : ((c.findings ++ solos b w).map Finding.index).Nodup) {f : Finding}
    (hf : f.index ∉ c.pending) : f ∈ (settledBy c b w).findings ↔ f ∈ c.findings := by
  rw [mem_settledBy hn,hj]
  constructor
  · intro hx
    rcases hx with hf' | ⟨job,hm,hd⟩
    · exact hf'
    · have hp : job.index ∈ c.pending := by
        rw [← jobsOf_index]
        exact List.mem_map_of_mem hm
      exact absurd (alone_finding hd ▸ hp) hf
  · exact .inl

/-- A pending endpoint has what its analysis yields on its own. -/
theorem settledBy_pending {b : Batch} (hj : b.jobs = jobsOf c)
    (hn : ((c.findings ++ solos b w).map Finding.index).Nodup) {i : Nat} (hi : i ∈ c.pending)
    {e : Endpoint} (he : c.endpoints[i]? = some e) {f : Finding} :
    f ∈ (settledBy c b w).findings ∧ f.index = i ↔
      ((analyze b.plan i e).run b.services w).1 = .done f := by
  rw [mem_settledBy hn,hj]
  constructor
  · intro hx
    rcases hx with ⟨hf | ⟨job,hm,hd⟩,rfl⟩
    · exact absurd rfl ((mem_pending.mp hi).2 f hf)
    · have hx := jobsOf_endpoint hm
      rw [← alone_finding hd,he] at hx
      obtain ⟨j,e'⟩ := job
      obtain rfl : f.index = j := alone_finding hd
      obtain rfl := Option.some.inj hx
      exact hd
  · intro hd
    have hjob : (⟨i,e⟩ : Job) ∈ jobsOf c := List.mem_filterMap.mpr ⟨i,hi,by rw [he]; rfl⟩
    have hindex : f.index = (⟨i,e⟩ : Job).index := alone_finding hd
    exact ⟨.inr ⟨⟨i,e⟩,hjob,hd⟩,hindex⟩

/-- Whatever the number of workers and the turns their tasks take, the analysis of an undisturbed batch
leads to one and the same context if the workers can be started: it keeps the old findings, and it has a
finding for a pending endpoint exactly if the analysis of the endpoint yields that one on its own. Where
they cannot, it fails before anything is analyzed. -/
theorem analysis_order_free (h : Ready setup c w project tool template)
    (ha : Ascending c.findings) (hs : Steady (setup.batch c project tool template).services)
    (hu : Undisturbed (setup.batch c project tool template).plan
      (setup.batch c project tool template).services (jobsOf c) w)
    (hc : w.cancelled = false) :
    let b := setup.batch c project tool template
    ∃ d : Context,
      (∀ workers turns refusals, 1 ≤ workers → (∀ batch ∈ turns.head?, .cancel ∉ batch) →
        refusals.head?.join = none →
        ∃ patch w', ((analysis { setup with workers }).run c).run.run { w with turns, refusals } =
          (.ok (patch,defaultLabel),w') ∧ c.apply patch = d) ∧
      (∀ workers turns refusals reason, c.pending ≠ [] → refusals.head?.join = some reason →
        ((analysis { setup with workers }).run c).run.run { w with turns, refusals } =
          (.error (.config ("cannot start worker pool: " ++ reason)),
            { w with turns, refusals := refusals.tail })) ∧
      d = { c with
        findings := d.findings
        tally := some (Completion.tally (d.findings.map Finding.text)) } ∧
      Ascending d.findings ∧
      (∀ f, f.index ∉ c.pending → (f ∈ d.findings ↔ f ∈ c.findings)) ∧
      ∀ i ∈ c.pending, ∀ e, c.endpoints[i]? = some e → ∀ f,
        f ∈ d.findings ∧ f.index = i ↔ ((analyze b.plan i e).run b.services w).1 = .done f := by
  intro b
  have hnil : ∀ batch ∈ ([] : List (List Turn)).head?, .cancel ∉ batch := by simp
  have hstarts : ([] : List (Option String)).head?.join = none := rfl
  obtain ⟨_,_,_,_,hn⟩ := analysis_settles h ha hs hu hc 1 hnil hstarts
  refine ⟨settledBy c b w,?_,?_,rfl,ascending_mergeFindings c.findings (solos b w),?_,?_⟩
  · intro workers turns refusals _ ht hstarts
    obtain ⟨patch,w',hr,hd,_⟩ := analysis_settles h ha hs hu hc workers ht hstarts
    exact ⟨patch,w',hr,hd⟩
  · intro workers turns refusals reason hp hr
    have hready : Ready { setup with workers } c { w with turns, refusals } project tool template :=
      ⟨h.project_eq,h.valid,h.supported,h.loaded⟩
    exact analysis_refused hready hp hr
  · intro f hf
    exact settledBy_old rfl hn hf
  · intro i hi e he f
    exact settledBy_pending rfl hn hi he

/-- Two endpoints, the second of which claims to be implemented at a position. -/
def nosyContext (position : String) : Context where
  project := some { kind := "Java", root := "/p", files := [] }
  endpoints := [{ controller := "C", handler := "m", position := "A:L0-L1" },{ position }]
  session := some { id := "s", dir := "/p/s" }

def nosySetup : AnalysisSetup where
  toolchains := [Pipeline.shopTools]
  prompt := { library := { dir := some "/t" }, name := "t", sectionKey := none, mode := .singlePass }
  generator _ _ := { outcome := .completion "" }
  model := { selector := "", temperature := 0, systemRole := "" }
  workers := 1

def nosyWorld : World where
  files :=
    { entries := [(["t"],.dir),(["t","t"],.file "\"\"".toUTF8 false),(["p"],.dir),
        (["p","A"],.file "".toUTF8 false),(["p","s"],.dir),(["p","s","logs"],.dir),
        (["p","s","logs","llm"],.dir)]
      cwd := [] }
  clock := ⟨"t","T"⟩

def nosyProject : Project :=
  { kind := "Java", root := "/p", files := [] }

theorem nosy_ready {position : String}
    (hv : (Endpoint.validateAll (nosyContext position).endpoints).isOk = true) : ∃ template,
    Ready nosySetup (nosyContext position) nosyWorld nosyProject Pipeline.shopTools template := by
  have hk : (Toolchain.kindWords "Java").contains "Java" = true := by decide +kernel
  have hl : (nosySetup.prompt.load nosyWorld.files).isOk = true := by decide +kernel
  cases ht : nosySetup.prompt.load nosyWorld.files with
  | error e =>
    rw [ht] at hl
    cases hl
  | ok template =>
    refine ⟨template,rfl,?_,?_,ht⟩
    · cases hr : Endpoint.validateAll (nosyContext position).endpoints with
      | error e =>
        rw [hr] at hv
        cases hv
      | ok u => rfl
    · change ((if (Toolchain.kindWords "Java").contains "Java" then some Pipeline.shopTools
        else none).elim _ _) = _
      rw [hk]
      rfl

theorem nosy_steady (c : Context) (template : Prompt.Template) :
    Steady (nosySetup.batch c nosyProject Pipeline.shopTools template).services :=
  ⟨fun _ _ _ => rfl,fun _ _ _ => rfl,fun _ _ _ => rfl,fun _ _ => rfl,fun _ _ => rfl⟩

/-- The one source file is not in the log. -/
theorem nosy_outsideLog (template : Prompt.Template) :
    OutsideLog (nosySetup.batch (nosyContext "A:L0-L1") nosyProject Pipeline.shopTools template).services
      (jobsOf (nosyContext "A:L0-L1")) nosyWorld.files := by
  have hspan : (CodeSpan.parse "A:L0-L1").toOption = some ⟨"A",0,1⟩ := by decide +kernel
  have hcode : (nosyWorld.files.locate (Path.join "/p" "A")).toOption.map Prod.fst =
      some ["p","A"] := by decide +kernel
  have hlog : (nosyWorld.files.locate (Session.callDir ⟨"s","/p/s"⟩)).toOption.map Prod.fst =
      some ["p","s","logs","llm"] := by decide +kernel
  intro dir hx job hj s hs number e
  cases hx
  have hp : job.endpoint.position = "A:L0-L1" := by
    have hm := List.mem_of_getElem? (jobsOf_endpoint hj)
    simp only [nosyContext,List.mem_cons,List.not_mem_nil,or_false] at hm
    rcases hm with hm | hm <;> rw [hm]
  rw [hp] at hs
  rw [hs] at hspan
  cases hspan
  have hdir {d : Location} {m : Option Node}
      (hd : nosyWorld.files.locate (Session.callDir ⟨"s","/p/s"⟩) = .ok (d,m)) :
      d = ["p","s","logs","llm"] := by
    rw [hd] at hlog
    exact Option.some.inj hlog
  refine FileTree.apart_child (by decide) (CallLog.fileName_plain number e) ?_ ?_
  · intro loc n d m hloc hd he
    obtain rfl := hdir hd
    rw [show nosyWorld.files.locate (Path.join "/p" "A") = .ok (loc,n) from hloc] at hcode
    have hlen := congrArg List.length (he.symm.trans (Option.some.inj hcode))
    simp at hlen
  · intro d m hd target
    obtain rfl := hdir hd
    simp [FileTree.node?,nosyWorld,List.lookup_cons]

/-- Where both endpoints are implemented in the source file, all orders lead to the one context. -/
theorem analysis_order_free_nosy : ∃ d : Context, ∀ turns,
    (∀ batch ∈ turns.head?, .cancel ∉ batch) → ∃ patch w',
      ((analysis { nosySetup with workers := 2 }).run (nosyContext "A:L0-L1")).run.run
          { nosyWorld with turns, refusals := [] } = (.ok (patch,defaultLabel),w') ∧
        (nosyContext "A:L0-L1").apply patch = d := by
  have hv : (Endpoint.validateAll (nosyContext "A:L0-L1").endpoints).isOk = true := by decide +kernel
  obtain ⟨template,hr⟩ := nosy_ready hv
  have hu := (nosy_outsideLog template).undisturbed
    (nosySetup.batch (nosyContext "A:L0-L1") nosyProject Pipeline.shopTools template).plan
    (fun _ _ => rfl)
  obtain ⟨d,hd,_⟩ := analysis_order_free hr List.Pairwise.nil (nosy_steady _ template) hu rfl
  exact ⟨d,fun turns ht => hd 2 turns [] (by decide) ht rfl⟩

/-- The places of the endpoints with a finding after an analysis that does not fail. -/
def placesAfter (setup : AnalysisSetup) (c : Context) (w : World) : Option (List Nat) :=
  match (((analysis setup).run c).run.run w).1 with
  | .ok (patch,_) => some ((c.apply patch).findings.map Finding.index)
  | .error _ => none

theorem placesAfter_eq_some {setup : AnalysisSetup} {c : Context} {w : World} {places : List Nat}
    (h : placesAfter setup c w = some places) : ∃ patch w',
      ((analysis setup).run c).run.run w = (.ok (patch,defaultLabel),w') ∧
        (c.apply patch).findings.map Finding.index = places := by
  rcases analysis_answers setup c w with ⟨e,hr,_⟩ | ⟨findings,made,hr,_⟩
  · rw [placesAfter,hr] at h
    cases h
  · rw [placesAfter,hr] at h
    exact ⟨_,_,hr,Option.some.inj h⟩

/-- An endpoint in the log can be analyzed once the other one's call is there, and not before, so the
context depends on the order of turns. -/
theorem analysis_order_matters :
    let c := nosyContext "s/logs/llm/0001_C_m.log:L0-L1"
    (∃ template, Ready nosySetup c nosyWorld nosyProject Pipeline.shopTools template ∧
      Steady (nosySetup.batch c nosyProject Pipeline.shopTools template).services) ∧
    Ascending c.findings ∧ nosyWorld.cancelled = false ∧
    ∃ patch w patch' w',
      ((analysis nosySetup).run c).run.run nosyWorld = (.ok (patch,defaultLabel),w) ∧
      ((analysis nosySetup).run c).run.run { nosyWorld with turns := [[.task 1,.task 1]] } =
        (.ok (patch',defaultLabel),w') ∧
      (c.apply patch).findings.map Finding.index = [0,1] ∧
      (c.apply patch').findings.map Finding.index = [0] := by
  intro c
  have hv : (Endpoint.validateAll c.endpoints).isOk = true := by decide +kernel
  obtain ⟨template,hr⟩ := nosy_ready hv
  have hfirst : placesAfter nosySetup c nosyWorld = some [0,1] := by decide +kernel
  have hsecond : placesAfter nosySetup c { nosyWorld with turns := [[.task 1,.task 1]] } = some [0] := by
    decide +kernel
  obtain ⟨patch,w,hp,hi⟩ := placesAfter_eq_some hfirst
  obtain ⟨patch',w',hp',hi'⟩ := placesAfter_eq_some hsecond
  exact ⟨⟨template,hr,nosy_steady c template⟩,List.Pairwise.nil,rfl,patch,w,patch',w',hp,hp',hi,hi'⟩

end EndpointAudit.Stages
