import EndpointAudit.Pipeline
import EndpointAudit.Proofs.Acts
import EndpointAudit.Proofs.Calls
import EndpointAudit.Proofs.FindingOrder

namespace EndpointAudit

open Act Analysis Model

section Files

variable {α : Type} {γ : Type} {part : World → γ} {P : α → Prop}

theorem keeps_withFiles (hp : ∀ w files, part { w with files } = part w)
    (f : FileTree → Except Error (α × FileTree)) :
    Keeps part (fun _ => True) (World.withFiles f) := by
  intro w
  refine ⟨?_,fun _ _ => trivial⟩
  change part (World.withFiles f w).2 = part w
  unfold World.withFiles
  cases f w.files with
  | error e => rfl
  | ok a => exact hp w a.2

theorem keeps_readFiles (f : FileTree → Except Error α) :
    Keeps part (fun _ => True) (World.readFiles f) :=
  fun _ => ⟨rfl,fun _ _ => trivial⟩

end Files

namespace Stages

theorem detection_keeps (c : Context) :
    Keeps World.calls (fun r => ∃ project, r = ({ project := some project },defaultLabel))
      (detection.run c) := by
  refine .ofBind (P := fun _ => True) ?_ fun root _ =>
    .ofBind (keeps_readFiles _) fun project _ => ?_
  · simp only
    split
    · exact .ofPure trivial
    · exact .ofThrow _
  · simp only
    split
    · exact .ofBind (keeps_withFiles (fun _ _ => rfl) _) fun _ _ => .ofPure ⟨project,rfl⟩
    · exact .ofPure ⟨project,rfl⟩

theorem extraction_keeps (toolchains : List Toolchain) (c : Context) :
    Keeps World.calls (fun r => ∃ endpoints, r = ({ endpoints := some endpoints },defaultLabel))
      ((extraction toolchains).run c) := by
  have hprepared (root dir kind : String) : Keeps World.calls (fun _ => True) (do
      let toolchain ← (MonadExcept.ofExcept (Toolchain.select toolchains kind) : Audit Toolchain)
      World.readFiles toolchain.available
      return { toolchain, root, target := dir : ExtractionJob }) :=
    .ofBind (.ofExcept fun _ _ => trivial) fun _ _ =>
      .ofBind (keeps_readFiles _) fun _ _ => .ofPure trivial
  refine .ofBind (P := fun _ => True) ?_ fun job _ =>
    .ofBind (P := fun _ => True) ?_ fun endpoints _ => .ofPure ⟨endpoints,rfl⟩
  · unfold prepareExtraction
    simp only [pure_bind]
    split
    · split
      · exact hprepared _ _ _
      · exact .ofBind (.ofThrow _) fun _ (h : False) => h.elim
    · exact .ofBind (.ofThrow _) fun _ (h : False) => h.elim
  · exact .ofBind (P := fun _ => True) (fun w => ⟨rfl,fun _ _ => trivial⟩) fun _ _ =>
      keeps_readFiles _

/-- The summary asks for another round only while rounds are left, and counts it. -/
theorem summary_keeps (rounds : Nat) (c : Context) :
    Keeps World.calls (fun r => ∃ report, r = ({ report := some report },defaultLabel) ∨
        c.round < rounds ∧ r = ({ report := some report, round := some (c.round + 1) },moreLabel))
      ((summary rounds).run c) := by
  have hends (report : Report) : Keeps World.calls (fun r => ∃ report,
      r = ({ report := some report },defaultLabel) ∨
        c.round < rounds ∧ r = ({ report := some report, round := some (c.round + 1) },moreLabel))
      (if (SummaryInput.ofContext c).goesOn rounds then
        return ({ report := some report, round := some (c.round + 1) },moreLabel)
      else return ({ report := some report },defaultLabel) : Audit (Patch × String)) := by
    split
    · rename_i hg
      have hr : c.round < rounds := of_decide_eq_true (Bool.and_eq_true_iff.mp hg).2
      exact .ofPure ⟨report,.inr ⟨hr,rfl⟩⟩
    · exact .ofPure ⟨report,.inl rfl⟩
  unfold summary Stage.ofPhases finalizeSummary
  simp only [pure_bind]
  split
  · exact .ofBind (keeps_withFiles (fun _ _ => rfl) _) fun _ _ => hends _
  · exact hends _

theorem prepareAnalysis_keeps (setup : AnalysisSetup) (c : Context) :
    Keeps id (fun b => b.jobs = jobsOf c) (prepareAnalysis setup c) := by
  unfold prepareAnalysis
  simp only [pure_bind]
  split
  · exact .ofBind (.ofExcept fun _ _ => trivial) fun _ _ =>
      .ofBind (.ofExcept fun _ _ => trivial) fun _ _ =>
        .ofBind (keeps_readFiles _) fun _ _ => .ofPure rfl
  · exact .ofBind (.ofThrow _) fun _ (h : False) => h.elim

theorem jobsOf_index (c : Context) : (jobsOf c).map Job.index = c.pending := by
  unfold jobsOf
  rw [List.map_filterMap]
  have hall : ∀ i ∈ c.pending, (c.endpoints[i]?.map fun e => (⟨i,e⟩ : Job)).map Job.index = some i := by
    intro i hi
    obtain ⟨hl,_⟩ := Context.mem_pending.mp hi
    simp [hl]
  rw [List.filterMap_congr hall,List.filterMap_some]

theorem jobsOf_nodup (c : Context) : ((jobsOf c).map Job.index).Nodup := by
  rw [jobsOf_index]
  exact c.pending_nodup

theorem jobsOf_endpoint {c : Context} {job : Job} (h : job ∈ jobsOf c) :
    c.endpoints[job.index]? = some job.endpoint := by
  obtain ⟨i,_,hj⟩ := List.mem_filterMap.mp h
  obtain ⟨e,he,rfl⟩ := Option.map_eq_some_iff.mp hj
  exact he

theorem executeAnalysis_nil {b : Batch} (hj : b.jobs = []) (workers : Nat) (w : World) :
    (executeAnalysis workers b).run.run w = (.ok [],w) := by
  unfold executeAnalysis
  simp only [hj,List.isEmpty_nil,↓reduceIte]
  rfl

/-- The world in which a batch of so many jobs begins. -/
def begun (jobs : Nat) (w : World) : World :=
  { w with
    progress := w.progress ++ [.start jobs "Analyzing APIs"]
    turns := w.turns.tail
    refusals := w.refusals.tail }

theorem startWorkers_run (w : World) : World.startWorkers.run.run w =
    (w.refusals.head?.join.elim (.ok ()) fun reason =>
      .error (.config ("cannot start worker pool: " ++ reason)),{ w with refusals := w.refusals.tail }) := by
  change World.startWorkers w = _
  unfold World.startWorkers
  cases w.refusals.head?.join <;> rfl

/-- A batch with jobs whose workers cannot be started fails for that reason before anything else. -/
theorem executeAnalysis_refused {b : Batch} (hj : b.jobs ≠ []) (workers : Nat) {w : World}
    {reason : String} (hr : w.refusals.head?.join = some reason) :
    (executeAnalysis workers b).run.run w =
      (.error (.config ("cannot start worker pool: " ++ reason)),{ w with refusals := w.refusals.tail }) := by
  have he : b.jobs.isEmpty = false := by simpa using hj
  unfold executeAnalysis
  simp only [he,Bool.false_eq_true,↓reduceIte]
  rw [run_seq,startWorkers_run,hr]
  rfl

/-- Any other batch with jobs takes the next turns of the world. -/
theorem executeAnalysis_run {b : Batch} (hj : b.jobs ≠ []) (workers : Nat) {w : World}
    (hr : w.refusals.head?.join = none) :
    let r := Pool.run b.plan b.services workers b.jobs (w.turns.headD []) (begun b.jobs.length w)
    ∃ progress, (executeAnalysis workers b).run.run w =
      (.ok (r.1.filterMap fun x => x.2.finding?),{ r.2 with progress }) := by
  have he : b.jobs.isEmpty = false := by simpa using hj
  unfold executeAnalysis
  simp only [he,Bool.false_eq_true,↓reduceIte]
  rw [run_seq,startWorkers_run,hr]
  obtain ⟨files,clock,cancelled,calls,logged,progress,turns,signals,refusals⟩ := w
  cases turns <;> exact ⟨_,rfl⟩

/-- The findings of a batch over the pending endpoints of a context, told by the calls it made. -/
structure Answered (c : Context) (findings : List Finding) (made : List Call) : Prop where
  pending : ∀ call ∈ made, call.index ∈ c.pending
  once : ∀ i, (callsAbout i made).length ≤ 1
  distinct : (findings.map Finding.index).Nodup
  found : ∀ f ∈ findings, f.index ∈ c.pending ∧ c.endpoints[f.index]? = some f.endpoint ∧
    f.verdict = Completion.verdict f.text
  answered : ∀ i text, (∃ f ∈ findings, f.index = i ∧ f.text = text) ↔
    ∃ call ∈ made, call.index = i ∧ call.text? = some text

theorem answered_nil (c : Context) : Answered c [] [] := by
  constructor <;> simp [callsAbout]

/-- An arrival with a finding has it from the one call made about its job. -/
theorem accounts_finding {job : Job} {a : Arrival} {made : List Call} {f : Finding}
    (h : (Pool.Phase.arrived a).Accounts job made) (hf : a.finding? = some f) :
    f.index = job.index ∧ f.endpoint = job.endpoint ∧ f.verdict = Completion.verdict f.text ∧
      ∃ g, made = [⟨job.index,g,.completion f.text⟩] := by
  unfold Arrival.finding? at hf
  split at hf <;> cases hf
  exact h

theorem accounts_length {job : Job} {a : Arrival} {made : List Call}
    (h : (Pool.Phase.arrived a).Accounts job made) : made.length ≤ 1 := by
  cases a with
  | skipped =>
    obtain rfl : made = [] := h
    exact Nat.zero_le 1
  | ended ending =>
    cases ending with
    | done f =>
      obtain ⟨_,_,_,g,rfl⟩ := h
      exact Nat.le_refl 1
    | failed e | crashed message => exact h.1

/-- No completion is lost: where a call returned one, the arrival has a finding. -/
theorem accounts_completion {job : Job} {a : Arrival} {made : List Call} {call : Call} {text : String}
    (h : (Pool.Phase.arrived a).Accounts job made) (hm : call ∈ made) (ht : call.text? = some text) :
    ∃ f, a.finding? = some f ∧ f.index = job.index ∧ f.text = text := by
  cases a with
  | skipped =>
    obtain rfl : made = [] := h
    cases hm
  | ended ending =>
    cases ending with
    | done f =>
      obtain ⟨hi,_,_,g,rfl⟩ := h
      obtain rfl := List.mem_singleton.mp hm
      exact ⟨f,rfl,hi,Option.some.inj ht⟩
    | failed e | crashed message =>
      rw [h.2 call hm] at ht
      cases ht

/-- No endpoint is pending twice. -/
theorem arrivals_nodup {c : Context} {arrivals : List (Job × Arrival)}
    (hp : (arrivals.map Prod.fst).Perm (jobsOf c)) :
    (arrivals.map fun x => x.1.index).Nodup := by
  have hn := jobsOf_nodup c
  rw [← (hp.map Job.index).nodup_iff,List.map_map] at hn
  exact hn

theorem run_answered {c : Context} {made : List Call} {arrivals : List (Job × Arrival)}
    (hi : ∀ call ∈ made, call.index ∈ c.pending) (hp : (arrivals.map Prod.fst).Perm (jobsOf c))
    (ha : ∀ x ∈ arrivals, (Pool.Phase.arrived x.2).Accounts x.1 (callsAbout x.1.index made)) :
    Answered c (arrivals.filterMap fun x => x.2.finding?) made := by
  have hjob : ∀ x ∈ arrivals, x.1 ∈ jobsOf c := fun x hx =>
    hp.mem_iff.mp (List.mem_map_of_mem hx)
  have harrived : ∀ i ∈ c.pending, ∃ x ∈ arrivals, x.1.index = i := by
    intro i hm
    rw [← jobsOf_index] at hm
    obtain ⟨job,hj,rfl⟩ := List.mem_map.mp hm
    obtain ⟨x,hx,rfl⟩ := List.mem_map.mp (hp.mem_iff.mpr hj)
    exact ⟨x,hx,rfl⟩
  refine ⟨hi,?_,?_,?_,?_⟩
  · intro i
    by_cases hm : i ∈ c.pending
    · obtain ⟨x,hx,rfl⟩ := harrived i hm
      exact accounts_length (ha x hx)
    · have hn : callsAbout i made = [] := by
        rw [callsAbout,List.filter_eq_nil_iff]
        intro call hc he
        exact hm (beq_iff_eq.mp he ▸ hi call hc)
      rw [hn]
      exact Nat.zero_le 1
  · have hd := arrivals_nodup hp
    refine List.pairwise_map.mpr (List.pairwise_filterMap.mpr ?_)
    refine (List.pairwise_map.mp hd).imp_of_mem ?_
    intro x y hx hy hne f hf f' hf' he
    obtain ⟨hx,_⟩ := accounts_finding (ha x hx) hf
    obtain ⟨hy,_⟩ := accounts_finding (ha y hy) hf'
    exact hne (hx.symm.trans (he.trans hy))
  · intro f hf
    obtain ⟨x,hx,hf⟩ := List.mem_filterMap.mp hf
    obtain ⟨hi,he,hv,_⟩ := accounts_finding (ha x hx) hf
    rw [hi,he,← jobsOf_index]
    exact ⟨List.mem_map_of_mem (hjob x hx),jobsOf_endpoint (hjob x hx),hv⟩
  · intro i text
    constructor
    · intro hx
      obtain ⟨f,hf,rfl,rfl⟩ := hx
      obtain ⟨x,hx,hf⟩ := List.mem_filterMap.mp hf
      obtain ⟨hi,_,_,g,hg⟩ := accounts_finding (ha x hx) hf
      have hm : (⟨x.1.index,g,.completion f.text⟩ : Call) ∈ callsAbout x.1.index made := by
        rw [hg]
        exact List.mem_singleton_self _
      exact ⟨_,(mem_callsAbout.mp hm).1,hi.symm,rfl⟩
    · intro hx
      obtain ⟨call,hm,rfl,ht⟩ := hx
      obtain ⟨x,hx,he⟩ := harrived _ (hi call hm)
      have hc : call ∈ callsAbout x.1.index made := mem_callsAbout.mpr ⟨hm,he.symm⟩
      obtain ⟨f,hf,hfi,rfl⟩ := accounts_completion (ha x hx) hc ht
      exact ⟨f,List.mem_filterMap.mpr ⟨x,hx,hf⟩,hfi.trans he,rfl⟩

/-- The analysis either does not start, or carries out a batch over the pending endpoints. -/
theorem analysis_run (setup : AnalysisSetup) (c : Context) (w : World) :
    let r := ((analysis setup).run c).run.run w
    (∃ e refusals, r = (.error e,{ w with refusals })) ∨
      ∃ b, (prepareAnalysis setup c).run.run w = (.ok b,w) ∧ b.jobs = jobsOf c ∧
        (b.jobs = [] ∧ r = (.ok (finalizeAnalysis c [],defaultLabel),w) ∨
          b.jobs ≠ [] ∧
            let x := Pool.run b.plan b.services setup.workers b.jobs (w.turns.headD [])
              (begun b.jobs.length w)
            ∃ progress, r = (.ok (finalizeAnalysis c (x.1.filterMap fun y => y.2.finding?),
              defaultLabel),{ x.2 with progress })) := by
  obtain ⟨hw,hb⟩ := prepareAnalysis_keeps setup c w
  unfold analysis Stage.ofPhases
  simp only
  rw [run_seq]
  rcases hp : (prepareAnalysis setup c).run.run w with ⟨answer,w₁⟩
  rw [hp] at hw hb
  obtain rfl : w₁ = w := hw
  cases answer with
  | error e => exact .inl ⟨e,w₁.refusals,rfl⟩
  | ok b =>
    simp only
    rw [run_seq]
    by_cases hj : b.jobs = []
    · rw [executeAnalysis_nil hj]
      exact .inr ⟨b,rfl,hb b rfl,.inl ⟨hj,rfl⟩⟩
    cases hr : w₁.refusals.head?.join with
    | some reason =>
      rw [executeAnalysis_refused hj setup.workers hr]
      exact .inl ⟨_,w₁.refusals.tail,rfl⟩
    | none =>
      obtain ⟨progress,he⟩ := executeAnalysis_run hj setup.workers hr
      rw [he]
      exact .inr ⟨b,rfl,hb b rfl,.inr ⟨hj,progress,rfl⟩⟩

/-- What the analysis returns is answered by the calls it makes. -/
theorem analysis_answers (setup : AnalysisSetup) (c : Context) (w : World) :
    let r := ((analysis setup).run c).run.run w
    (∃ e, r = (.error e,r.2) ∧ r.2.calls = w.calls) ∨
      ∃ findings made, r = (.ok (finalizeAnalysis c findings,defaultLabel),r.2) ∧
        r.2.calls = w.calls ++ made ∧ Answered c findings made := by
  intro r
  rcases analysis_run setup c w with ⟨e,refusals,hr⟩ | ⟨⟨plan,services,jobs⟩,_,rfl,⟨_,hr⟩ | ⟨_,progress,hr⟩⟩
  · exact .inl ⟨e,by simp only [r,hr],by simp only [r,hr]⟩
  · exact .inr ⟨[],[],by simp only [r,hr],by simp only [r,hr,List.append_nil],answered_nil c⟩
  · obtain ⟨made,hm,hi,ha,hperm⟩ := Pool.run_accounted plan services setup.workers
      (jobsOf_nodup c) (w.turns.headD []) (begun (jobsOf c).length w)
    rw [jobsOf_index] at hi
    exact .inr ⟨_,made,by simp only [r,hr],by simp only [r,hr]; exact hm,run_answered hi hperm ha⟩

end Stages

/-- A snapshot changes nothing but files. -/
theorem snapshot_keeps {γ : Type} {part : World → γ} (hp : ∀ w files, part { w with files } = part w)
    (number : Nat) (stage label : String) (c : Context) :
    Keeps part (fun _ => True) (Pipeline.snapshot number stage label c) := by
  unfold Pipeline.snapshot
  split
  · exact .ofPure trivial
  · exact .ofBind (keeps_withFiles hp _) fun _ _ => .ofPure trivial

end EndpointAudit
