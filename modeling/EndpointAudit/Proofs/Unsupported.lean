import EndpointAudit.Proofs.Consistency
import EndpointAudit.Proofs.FinalReport
import EndpointAudit.Proofs.Languages
import EndpointAudit.Proofs.Positions
import EndpointAudit.Proofs.SpanTexts

namespace EndpointAudit

open EndpointAudit.Graph Act Stages Detection

/-- An error that is not about the kind of a project. -/
def Error.Elsewhere (e : Error) : Prop :=
  ∀ kind, e ≠ .unsupportedProject kind

theorem elsewhere_of_mapError {ε α : Type} {r : Except ε α} {f : ε → Error} {e : Error}
    (h : r.mapError f = .error e) (hf : ∀ a, (f a).Elsewhere) : e.Elsewhere := by
  obtain ⟨a,rfl⟩ := Except.error_of_mapError h
  exact hf a

theorem withFiles_run {α : Type} (f : FileTree → Except Error (α × FileTree)) (w : World) :
    (World.withFiles f).run.run w =
      match f w.files with
      | .ok (a,files) => (.ok a,{ w with files })
      | .error e => (.error e,w) := by
  change World.withFiles f w = _
  unfold World.withFiles
  cases f w.files <;> rfl

theorem failsWith_withFiles {α : Type} {P : Error → Prop} {f : FileTree → Except Error (α × FileTree)}
    (h : ∀ t e, f t = .error e → P e) : FailsWith P (World.withFiles f) := by
  intro w e he
  rw [withFiles_run] at he
  cases hf : f w.files with
  | error e' =>
    rw [hf] at he
    cases he
    exact h _ _ hf
  | ok a =>
    rw [hf] at he
    cases he

theorem failsWith_readFiles {α : Type} {P : Error → Prop} {f : FileTree → Except Error α}
    (h : ∀ t e, f t = .error e → P e) : FailsWith P (World.readFiles f) :=
  fun w e he => h w.files e he

theorem Session.writeJson_elsewhere {s : Session} {t : FileTree} {relative : String} {value : Json}
    {e : Error} (h : s.writeJson t relative value = .error e) : e.Elsewhere := by
  have io (path : String) (f : IoFault) : (Error.io path f).Elsewhere := nofun
  have write {t : FileTree} {path : String} (h : (do
      let t ← (t.writeText path value.pretty).mapError (.io path)
      return (path,t) : Except Error (String × FileTree)) = .error e) : e.Elsewhere := by
    rcases Except.error_of_bind h with h | ⟨t',_,h⟩
    · exact elsewhere_of_mapError h (io path)
    · cases h
  unfold writeJson at h
  simp only at h
  split at h
  · rcases Except.error_of_bind h with h | ⟨t',_,h⟩
    · exact elsewhere_of_mapError h (io _)
    · exact write h
  · exact write h

namespace Stages

theorem detection_fails (c : Context) : FailsWith Error.Elsewhere (detection.run c) := by
  refine .ofBind ?_ fun root => .ofBind (failsWith_readFiles nofun) fun project => ?_
  · simp only
    split
    · exact .ofPure _
    · exact .ofThrow nofun
  · simp only
    split
    · exact .ofBind (failsWith_withFiles fun t e h => Session.writeJson_elsewhere h) fun _ =>
        .ofPure _
    · exact .ofPure _

/-- What is found out about the project is returned if it can be written down. -/
theorem detection_run {c : Context} {p : Project} {s : Session} (hp : c.project = some p)
    (hs : c.session = some s) (w : World) :
    let found := Detection.project w.files p.root
    (detection.run c).run.run w =
      match s.writeJson w.files detectionFile found.toJson with
      | .ok (_,files) => (.ok ({ project := some found },defaultLabel),{ w with files })
      | .error e => (.error e,w) := by
  intro found
  unfold detection Stage.ofPhases
  have hread : (World.readFiles fun t => .ok (Detection.project t p.root)).run.run w =
      (.ok found,w) := rfl
  simp only [hp,hs,pure_bind]
  rw [run_seq,hread]
  simp only
  rw [run_seq,withFiles_run]
  cases s.writeJson w.files detectionFile found.toJson <;> rfl

theorem summary_fails (rounds : Nat) (c : Context) :
    FailsWith Error.Elsewhere ((summary rounds).run c) := by
  have hends (report : Report) : FailsWith Error.Elsewhere
      (if (SummaryInput.ofContext c).goesOn rounds then
        return ({ report := some report, round := some (c.round + 1) },moreLabel)
      else return ({ report := some report },defaultLabel) : Audit (Patch × String)) := by
    split <;> exact .ofPure _
  unfold summary Stage.ofPhases finalizeSummary
  simp only [pure_bind]
  split
  · exact .ofBind (failsWith_withFiles fun t e h => Session.writeJson_elsewhere h) fun _ => hends _
  · exact hends _

/-- The tools of a toolchain fail for other reasons than the kind of a project. -/
structure Honest (t : Toolchain) : Prop where
  available : ∀ files e, t.available files = .error e → e.Elsewhere
  extract : ∀ root target files e, (t.extract root target files).answer = .error e → e.Elsewhere

/-- An error that is about the kind of the project only if there is no toolchain for it. -/
def Unselected (toolchains : List Toolchain) (c : Context) (e : Error) : Prop :=
  e.Elsewhere ∨
    ∃ project, c.project = some project ∧ Toolchain.select toolchains project.kind = .error e

theorem loadEndpoints_elsewhere {t : FileTree} {session : String} {e : Error}
    (h : loadEndpoints t session = .error e) : e.Elsewhere := by
  unfold loadEndpoints at h
  simp only at h
  split at h <;> cases h
  exact nofun

theorem validateAll_elsewhere {es : List Endpoint} {e : Error}
    (h : Endpoint.validateAll es = .error e) : e.Elsewhere := by
  rcases Endpoint.validateAll_first es with ⟨hok,_⟩ | ⟨d,reason,_,herror⟩
  · rw [hok] at h
    cases h
  · rw [herror] at h
    cases h
    exact nofun

theorem load_elsewhere {choice : PromptChoice} {t : FileTree} {e : Error}
    (h : choice.load t = .error e) : e.Elsewhere := by
  have template (name reason : String) : (Error.template name reason).Elsewhere := nofun
  have builtin {name : String} {e : Error} (h : Prompt.Library.builtin name = .error e) :
      e.Elsewhere := by
    unfold Prompt.Library.builtin at h
    split at h <;> cases h
    exact template _ _
  have document {l : Prompt.Library} {name : String} {e : Error} (h : l.document t name = .error e) :
      e.Elsewhere := by
    unfold Prompt.Library.document at h
    split at h
    · exact builtin h
    · simp only at h
      split at h
      · split at h
        · cases h
          exact template _ _
        · split at h <;> cases h
          exact template _ _
      · exact builtin h
  unfold PromptChoice.load Prompt.Library.template at h
  rcases Except.error_of_bind h with h | ⟨_,_,h⟩
  · rcases Except.error_of_bind h with h | ⟨d,_,h⟩
    · exact document h
    · unfold Prompt.Template.ofDocument at h
      simp only at h
      split at h
      · cases h
      · split at h <;> cases h
        exact template _ _
  · cases h

variable {c : Context} {toolchains : List Toolchain}

theorem select_mem {kind : String} {t : Toolchain}
    (h : Toolchain.select toolchains kind = .ok t) : t ∈ toolchains := by
  unfold Toolchain.select at h
  cases hf : toolchains.find? fun t => (Toolchain.kindWords kind).contains t.language with
  | none =>
    rw [hf] at h
    cases h
  | some found =>
    rw [hf] at h
    cases h
    exact List.mem_of_find?_eq_some hf

/-- What an extraction is prepared for, as far as the files allow. -/
theorem prepareExtraction_run {project : Project} {session : Session} (hp : c.project = some project)
    (hs : c.session = some session) (w : World) :
    (prepareExtraction toolchains c).run.run w =
      ((do
        let toolchain ← Toolchain.select toolchains project.kind
        toolchain.available w.files
        return ⟨toolchain,project.root,session.dir⟩ : Except Error ExtractionJob),w) := by
  unfold prepareExtraction
  simp only [hp,hs,pure_bind]
  rw [run_seq]
  cases Toolchain.select toolchains project.kind with
  | error e => rfl
  | ok toolchain =>
    change ((World.readFiles toolchain.available >>= fun _ =>
      pure (⟨toolchain,project.root,session.dir⟩ : ExtractionJob)).run.run w) =
        ((toolchain.available w.files >>= fun _ => pure ⟨toolchain,project.root,session.dir⟩),w)
    have hread : (World.readFiles toolchain.available).run.run w = (toolchain.available w.files,w) := rfl
    rw [run_seq,hread]
    cases toolchain.available w.files <;> rfl

theorem extraction_fails (honest : ∀ t ∈ toolchains, Honest t) (c : Context) :
    FailsWith (Unselected toolchains c) ((extraction toolchains).run c) := by
  have hprepared {w : World} {r : Except Error ExtractionJob}
      (h : ((prepareExtraction toolchains c).run.run w).1 = r) :
      (∃ e, r = .error e ∧ e.Elsewhere) ∨ ∃ project session, c.project = some project ∧
        c.session = some session ∧ r = do
          let toolchain ← Toolchain.select toolchains project.kind
          toolchain.available w.files
          return ⟨toolchain,project.root,session.dir⟩ := by
    cases hp : c.project with
    | none =>
      refine .inl ⟨noProject,?_,nofun⟩
      rw [← h,prepareExtraction,hp]
      rfl
    | some project =>
      cases hs : c.session with
      | none =>
        refine .inl ⟨.config "API extraction needs a session directory",?_,nofun⟩
        rw [← h]
        unfold prepareExtraction
        simp only [hp,hs,pure_bind]
        rfl
      | some session =>
        rw [prepareExtraction_run hp hs] at h
        exact .inr ⟨project,session,rfl,rfl,h.symm⟩
  refine .ofBind_ok ?_ ?_
  · intro w e he
    rcases hprepared he with ⟨_,⟨⟩,h⟩ | ⟨project,session,hp,_,h⟩
    · exact .inl h
    · rcases Except.error_of_bind h.symm with h | ⟨toolchain,ht,h⟩
      · exact .inr ⟨project,hp,h⟩
      · rcases Except.error_of_bind h with h | ⟨_,_,h⟩
        · exact .inl ((honest _ (select_mem ht)).available _ _ h)
        · cases h
  · intro w job hj
    have ht : job.toolchain ∈ toolchains := by
      rcases hprepared hj with ⟨_,⟨⟩,_⟩ | ⟨project,session,_,_,h⟩
      obtain ⟨toolchain,ht,h⟩ := bind_eq_ok_iff.mp h.symm
      obtain ⟨_,_,h⟩ := bind_eq_ok_iff.mp h
      cases h
      exact select_mem ht
    refine .ofBind (.ofBind ?_ fun _ => failsWith_readFiles fun t e h =>
      .inl (loadEndpoints_elsewhere h)) fun _ => .ofPure _
    intro w e he
    exact .inl ((honest _ ht).extract _ _ _ _ he)

theorem prepareAnalysis_fails (setup : AnalysisSetup) (c : Context) :
    FailsWith (Unselected setup.toolchains c) (prepareAnalysis setup c) := by
  unfold prepareAnalysis
  simp only [pure_bind]
  cases hp : c.project with
  | none =>
    intro w e he
    cases he
    exact .inl nofun
  | some project =>
    refine .ofBind (.ofExcept fun e h => .inl (validateAll_elsewhere h)) fun _ =>
      .ofBind (.ofExcept fun e h => .inr ⟨project,hp,h⟩) fun _ =>
        .ofBind (failsWith_readFiles fun t e h => .inl (load_elsewhere h)) fun _ => .ofPure _

/-- What happens to single jobs does not make a batch fail, it only fails where it has no workers. -/
theorem executeAnalysis_fails (workers : Nat) (b : Batch) :
    FailsWith Error.Elsewhere (executeAnalysis workers b) := by
  intro w e he
  by_cases hj : b.jobs = []
  · rw [executeAnalysis_nil hj] at he
    cases he
  cases hr : w.refusals.head?.join with
  | some reason =>
    rw [executeAnalysis_refused hj workers hr] at he
    cases he
    exact nofun
  | none =>
    obtain ⟨progress,hrun⟩ := executeAnalysis_run hj workers hr
    rw [hrun] at he
    cases he

theorem analysis_fails (setup : AnalysisSetup) (c : Context) :
    FailsWith (Unselected setup.toolchains c) ((analysis setup).run c) :=
  .ofBind (prepareAnalysis_fails setup c) fun b =>
    .ofBind ((executeAnalysis_fails setup.workers b).imp fun _ h => .inl h) fun _ => .ofPure _

end Stages

namespace Pipeline

theorem standardToolchains_honest (s : Settings) (machine : Machine) (env : Environment) :
    ∀ t ∈ standardToolchains s machine env, Honest t := by
  have paths {j : JavaTool} {e : Error} (h : j.paths = .error e) : e.Elsewhere := by
    unfold JavaTool.paths at h
    split at h <;> cases h <;> exact nofun
  intro t ht
  obtain rfl := List.mem_singleton.mp ht
  refine ⟨?_,?_⟩
  · intro files e h
    change JavaTool.available _ files = .error e at h
    unfold JavaTool.available at h
    rcases Except.error_of_bind h with h | ⟨_,_,h⟩
    · exact paths h
    · simp only at h
      split at h <;> cases h
      exact nofun
  · intro root target files e h
    change (JavaTool.run _ machine env root ["API","-o",target] files).answer.map
      JavaTool.extractionRun = .error e at h
    have hrun : ∀ {j : JavaTool} {args : List String} {e : Error},
        (j.run machine env root args files).answer = .error e → e.Elsewhere := by
      intro j args e h
      unfold JavaTool.run at h
      split at h
      · rename_i hp
        cases h
        exact paths hp
      · exact elsewhere_of_mapError h nofun
    cases hr : (JavaTool.run _ machine env root ["API","-o",target] files).answer with
    | error e' =>
      rw [hr] at h
      cases h
      exact hrun hr
    | ok r =>
      rw [hr] at h
      cases h

theorem select_standard (s : Settings) (machine : Machine) (env : Environment) {kind : String}
    (hk : kind ∈ Project.unknownKind :: marks.map Mark.language) :
    if kind = java then ∃ t, Toolchain.select (standardToolchains s machine env) kind = .ok t
    else Toolchain.select (standardToolchains s machine env) kind = .error (.unsupportedProject kind) := by
  -- No other language of the marks has Java for one of its words.
  have hwords : ∀ kind ∈ Project.unknownKind :: marks.map Mark.language,
      (Toolchain.kindWords kind).contains java = decide (kind = java) := by decide +kernel
  have hselect : Toolchain.select (standardToolchains s machine env) kind =
      if (Toolchain.kindWords kind).contains java then
        .ok ((JavaTool.orEnvironment { java := s.java, jar := s.jar } env).toolchain machine env)
      else .error (.unsupportedProject kind) := by
    unfold Toolchain.select standardToolchains
    rw [List.find?_singleton]
    change (if (Toolchain.kindWords kind).contains java = true then _ else _ : Option Toolchain).elim
      _ _ = _
    split <;> rfl
  rw [hselect,hwords kind hk]
  by_cases h : kind = java
  · simp [h]
  · simp [h]

variable {p : Pipeline} {g : Graph World}

/-- A run starts in a context that knows the root of its project and its session. -/
theorem start_context (settings : Settings) (command : String) :
    Keeps (fun _ => ()) (fun c => ∃ s, c =
      { project := some (.atRoot settings.project), session := some s }) (start settings command) := by
  unfold start
  refine .ofBind (P := fun _ => True) (fun _ => ⟨rfl,fun _ _ => trivial⟩) fun w _ => ?_
  refine .ofBind (keeps_withFiles (fun _ _ => rfl) _) fun session _ => ?_
  exact .ofBind (keeps_withFiles (fun _ _ => rfl) _) fun _ _ => .ofPure ⟨session,rfl⟩

theorem poll_files (w : World) : (World.poll.run w).2.files = w.files := by
  change (World.poll w).2.files = w.files
  unfold World.poll
  cases w.signals <;> rfl

/-- Where a run stands that starts in a context and finds a project. -/
inductive Stands (toolchains : List Toolchain) (start : Context) (t : FileTree) (found : Project) :
    String → Context → World → Prop
  | detecting {name c w} (named : name = detectionName) (context_eq : c = start)
    (files_eq : w.files = t) : Stands toolchains start t found name c w
  | extracting {name c w} (named : name = extractionName)
    (context_eq : c = start.apply { project := some found }) : Stands toolchains start t found name c w
  | supported {name c w} (named : name = analysisName ∨ name = summaryName)
    (kept : c.project = some found)
    (selected : ∃ t, Toolchain.select toolchains found.kind = .ok t) :
    Stands toolchains start t found name c w

theorem stands_lasting (hb : Built p.stages edges (some detectionName) p.settings.cap g)
    {start : Context} {root : Project} {session : Session} (hp : start.project = some root)
    (hs : start.session = some session) (t : FileTree) :
    Lasting g World.poll snapshot fun _ s c w =>
      Stands p.toolchains start t (Detection.project t root.root) (g.stageAt s).name c w where
  polled := by
    intro past s c w h
    cases h with
    | detecting named context_eq files_eq =>
      exact .detecting named context_eq ((poll_files w).trans files_eq)
    | extracting named context_eq => exact .extracting named context_eq
    | supported named kept selected => exact .supported named kept selected
  onward := by
    intro past v patch label w next h visited edge
    obtain ⟨made,hon⟩ := onward_of_visited hb visited edge
    obtain ⟨w₁,hrun,_⟩ := run_of_completed visited
    have hstage (stage : Stage World) (hm : stage ∈ p.stages) (hn : v.name = stage.name) :
        (stage.run v.context).run.run v.world = (.ok (patch,label),w₁) :=
      visit_stage hb stage hm hn ▸ hrun
    change Stands _ _ _ _ v.name _ _ at h
    generalize v.name = name at h hstage hon
    generalize (g.stageAt next).name = nextName at hon ⊢
    cases h with
    | detecting named context_eq files_eq =>
      cases hon with
      | detected project =>
        have hfound := hstage detection (by simp [stages]) rfl
        rw [detection_run (context_eq ▸ hp) (context_eq ▸ hs),files_eq] at hfound
        refine .extracting rfl ?_
        split at hfound <;> cases hfound
        rw [context_eq]
      | extracted | analyzed | reopened => exact absurd named (by decide)
    | extracting named context_eq =>
      cases hon with
      | extracted endpoints =>
        have hextracted := hstage (extraction p.toolchains) (by simp [stages]) rfl
        have hkept : v.context.project = some (Detection.project t root.root) := by
          rw [context_eq]
          rfl
        have hsession : v.context.session = some session := by
          rw [context_eq]
          exact hs
        refine .supported (.inl rfl) hkept ?_
        change ((prepareExtraction p.toolchains v.context >>= _).run.run v.world) = _ at hextracted
        rw [run_seq,prepareExtraction_run hkept hsession] at hextracted
        cases hselect : Toolchain.select p.toolchains (Detection.project t root.root).kind with
        | error e =>
          rw [hselect] at hextracted
          cases hextracted
        | ok toolchain => exact ⟨toolchain,rfl⟩
      | detected | analyzed | reopened => exact absurd named (by decide)
    | supported named kept selected =>
      cases hon with
      | detected | extracted => rcases named with h | h <;> exact absurd h (by decide)
      | analyzed answered => exact .supported (.inr rfl) kept selected
      | reopened report left => exact .supported (.inl rfl) kept selected

theorem snapshot_run {number : Nat} {stage label : String} {c : Context} {s : Session}
    (hs : c.session = some s) (w : World) :
    (snapshot number stage label c).run.run w =
      match s.writeJson w.files (snapshotFile number stage) c.toJson with
      | .ok (_,files) => (.ok (),{ w with files })
      | .error e => (.error e,w) := by
  unfold snapshot
  rw [hs]
  simp only
  rw [run_seq,withFiles_run]
  cases s.writeJson w.files (snapshotFile number stage) c.toJson <;> rfl

theorem snapshot_fails (number : Nat) (stage label : String) (c : Context) :
    FailsWith Error.Elsewhere (snapshot number stage label c) := by
  unfold snapshot
  split
  · exact .ofPure _
  · exact .ofBind (failsWith_withFiles fun t e h => Session.writeJson_elsewhere h) fun _ => .ofPure _

/-- A run fails because of the kind of its project only where there is no toolchain for the project that
it has found. -/
theorem unselected_of_unsupported (honest : ∀ t ∈ p.toolchains, Honest t) (hg : p.graph = .ok g)
    {start : Context} {root : Project} {session : Session} (hp : start.project = some root)
    (hs : start.session = some session) {w : World} {kind : String}
    (h : ((p.execute start).run w).1.outcome = .error (.unsupportedProject kind)) :
    Toolchain.select p.toolchains (Detection.project w.files root.root).kind =
      .error (.unsupportedProject kind) := by
  have hb := graph_built hg
  rw [execute_course hg] at h
  have hstart : Stands p.toolchains start w.files (Detection.project w.files root.root)
      (g.stageAt g.start).name start w :=
    .detecting (Option.some.inj hb.start_eq).symm rfl rfl
  have hexit := (stands_lasting hb hp hs w.files).exits (course_runs start w) [] hstart
  have hstop : (g.course World.poll snapshot start w).stop = .failed (.unsupportedProject kind) ∨
      (g.course World.poll snapshot start w).stop = .unheard (.unsupportedProject kind) := by
    cases hx : (g.course World.poll snapshot start w).stop with
    | cancelled | capped | finished label =>
      rw [hx] at h
      cases h
    | failed e =>
      rw [hx] at h
      cases h
      exact .inl rfl
    | unheard e =>
      rw [hx] at h
      cases h
      exact .inr rfl
  rcases hstop with hstop | hstop
  · obtain ⟨visits,v,_,stands,visited,_⟩ := hexit.of_failed hstop
    have herror := error_of_failed visited
    have hstage (stage : Stage World) (hm : stage ∈ p.stages) (hn : v.name = stage.name) :
        ((stage.run v.context).run.run v.world).1 = .error (.unsupportedProject kind) :=
      visit_stage hb stage hm hn ▸ herror
    change Stands _ _ _ _ v.name _ _ at stands
    cases stands with
    | detecting named _ _ =>
      exact absurd rfl (detection_fails _ _ _ (hstage detection (by simp [stages]) named) kind)
    | extracting named context_eq =>
      rcases extraction_fails honest _ _ _ (hstage (extraction p.toolchains) (by simp [stages]) named)
        with he | ⟨project,hproject,hselect⟩
      · exact absurd rfl (he kind)
      · rw [context_eq] at hproject
        cases hproject
        exact hselect
    | supported named kept selected =>
      rcases named with named | named
      · rcases analysis_fails _ _ _ _ (hstage (analysis p.analysisSetup) (by simp [stages]) named)
          with he | ⟨project,hproject,hselect⟩
        · exact absurd rfl (he kind)
        · obtain rfl := Option.some.inj (hproject.symm.trans kept)
          exact hselect
      · exact absurd rfl
          (summary_fails _ _ _ _ (hstage (summary p.settings.rounds) (by simp [stages]) named) kind)
  · obtain ⟨visits,v,patch,label,_,_,visited,_⟩ := hexit.of_unheard hstop
    obtain ⟨w₁,herror⟩ := error_of_unheard visited
    exact absurd rfl (snapshot_fails _ _ _ _ _ _ herror kind)

/-- The world in which a run that nobody cancels begins its next visit. -/
theorem poll_quiet {w : World} (hc : w.cancelled = false) (hq : ∀ signal ∈ w.signals, signal = false) :
    World.poll.run w = (false,{ w with signals := w.signals.tail }) := by
  obtain ⟨files,clock,cancelled,calls,logged,progress,turns,signals,refusals⟩ := w
  obtain rfl := hc
  cases signals with
  | nil => rfl
  | cons signal signals =>
    obtain rfl := hq signal List.mem_cons_self
    rfl

/-- Where there is no toolchain, the run ends behind the first stage. -/
theorem execute_unselected (hg : p.graph = .ok g) {start : Context} {root : Project}
    {session : Session} (hp : start.project = some root) (hs : start.session = some session) {w : World}
    (hcap : 2 ≤ p.settings.cap) (hc : w.cancelled = false) (hq : ∀ signal ∈ w.signals, signal = false)
    {found : Project} (hfound : found = Detection.project w.files root.root)
    {written noted : String × FileTree}
    (hw : session.writeJson w.files detectionFile found.toJson = .ok written)
    (hn : session.writeJson written.2 (snapshotFile 1 detectionName)
      (start.apply { project := some found }).toJson = .ok noted)
    {e : Error} (he : Toolchain.select p.toolchains found.kind = .error e) :
    (p.execute start).run w = (⟨.error e,start.apply { project := some found }⟩,
      { w with files := noted.2, signals := w.signals.tail.tail }) := by
  have hb := graph_built hg
  obtain ⟨left,hleft⟩ : ∃ left, g.cap = left + 2 := ⟨g.cap - 2,by rw [hb.cap_eq]; omega⟩
  have hone : g.cap - (left + 1) = 1 := by omega
  have hsession : (start.apply { project := some found }).session = some session := hs
  let w₁ : World := { w with signals := w.signals.tail }
  let v : Visit g := ⟨g.cap - (left + 1),g.start,start,w₁⟩
  have hname : v.name = detectionName := (Option.some.inj hb.start_eq).symm
  let w₂ : World := { w₁ with files := noted.2 }
  have hvisit : v.upshot snapshot = (.completed { project := some found } defaultLabel,w₂) := by
    have hrun : ((g.stageAt v.stage).run v.context).run.run v.world =
        (.ok ({ project := some found },defaultLabel),{ w₁ with files := written.2 }) := by
      rw [visit_stage hb detection (by simp [stages]) hname,detection_run hp hs]
      simp only [w₁,v,← hfound,hw]
    have hobserve : (snapshot v.number v.name defaultLabel
        (start.apply { project := some found })).run.run { w₁ with files := written.2 } =
        (.ok (),w₂) := by
      rw [hname,snapshot_run hsession]
      simp only [v,hone,hn,w₂]
    unfold Visit.upshot
    rw [hrun]
    simp only
    rw [hobserve]
  obtain ⟨next,edge⟩ : ∃ next, g.next? g.start defaultLabel = some next := by
    refine Option.isSome_iff_exists.mp ((hb.next_isSome_iff _ _).mpr ⟨_,.head _,?_,rfl⟩)
    exact hname.symm
  have hnext : (g.stageAt next).name = extractionName := by
    obtain ⟨made,hon⟩ := onward_of_visited hb hvisit edge
    generalize v.name = name at hon
    generalize (g.stageAt next).name = nextName at hon ⊢
    cases hon
    rfl
  let w₃ : World := { w₂ with signals := w₂.signals.tail }
  let v' : Visit g := ⟨g.cap - left,next,start.apply { project := some found },w₃⟩
  have hvisit' : v'.upshot snapshot = (.failed e,w₃) := by
    have hrun : ((g.stageAt v'.stage).run v'.context).run.run v'.world = (.error e,w₃) := by
      rw [visit_stage (v := v') hb (extraction p.toolchains) (by simp [stages]) hnext]
      change ((prepareExtraction p.toolchains v'.context >>= _).run.run v'.world) = _
      have hproject : v'.context.project = some found := rfl
      rw [run_seq,prepareExtraction_run hproject hsession,he]
      rfl
    unfold Visit.upshot
    rw [hrun]
  have hruns : Runs g World.poll snapshot (left + 2) g.start start w (Course.after _ v) :=
    .onward (poll_quiet hc hq) hvisit edge
      (.failed (poll_quiet hc fun s hm => hq s (List.mem_of_mem_tail hm)) hvisit')
  rw [execute_course hg,Graph.course,hleft,← hruns.eq_courseFrom]
  rfl

/-- The project that a run finds has been left in its session, by the first stage and by the snapshot
behind it. -/
def Noted (s : Session) (start : Context) (found : Project) (t t' : FileTree) : Prop :=
  ∃ path path' written, s.writeJson t detectionFile found.toJson = .ok (path,written) ∧
    s.writeJson written (snapshotFile 1 detectionName)
      (start.apply { project := some found }).toJson = .ok (path',t')

/-- With the standard toolchain, a run that nobody cancels and that can leave its first notes fails
because of the kind of its project exactly if no entry of it shows Java, be it only by the name of the
mark. Whatever there are for programs and models, it has then done nothing but to find and note the
project, which is all that its context has got. -/
theorem execute_unsupported {machine : Machine} {env : Environment}
    (ht : p.toolchains = standardToolchains p.settings machine env) {command : String} {c : Context}
    {w₀ w : World} (hs : (start p.settings command).run.run w₀ = (.ok c,w)) (hg : p.graph = .ok g)
    (hcap : 2 ≤ p.settings.cap) (hc : w.cancelled = false) (hq : ∀ signal ∈ w.signals, signal = false)
    {session : Session} (hsession : c.session = some session) {t : FileTree}
    (hn : Noted session c (Detection.project w.files p.settings.project) w.files t) :
    let r := (p.execute c).run w
    ((∃ kind, r.1.outcome = .error (.unsupportedProject kind)) ↔
      ∀ e ∈ Detection.walk w.files p.settings.project, ¬ (e.CarriesJava ∨ e.name = ".java")) ∧
    ∀ kind, r.1.outcome = .error (.unsupportedProject kind) →
      kind = Detection.kind w.files p.settings.project ∧
      r.1.context = { c with project := some (Detection.project w.files p.settings.project) } ∧
      r.1.context.endpoints = [] ∧ r.1.context.findings = [] ∧
      r.2 = { w with files := t, signals := w.signals.tail.tail } ∧ r.2.calls = w₀.calls := by
  intro r
  obtain ⟨s,hcontext⟩ := (start_context p.settings command w₀).2 c (by rw [hs])
  have hcalls : w.calls = w₀.calls := by
    have h := (start_keeps p.settings command w₀).1
    rwa [hs] at h
  have hproject : c.project = some (.atRoot p.settings.project) := by rw [hcontext]
  have hselect := select_standard p.settings machine env (kindOf_mem
    (Detection.walk w.files p.settings.project))
  rw [← ht] at hselect
  have hjava : kindOf (languagesOf (Detection.walk w.files p.settings.project)) = java ↔
      ∃ e ∈ Detection.walk w.files p.settings.project, e.CarriesJava ∨ e.name = ".java" :=
    kindOf_languagesOf_eq_java_iff
  obtain ⟨path,path',written,hw,hn⟩ := hn
  have hrefused (hno : ¬ kindOf (languagesOf (Detection.walk w.files p.settings.project)) = java) :
      r = (⟨.error (.unsupportedProject (Detection.kind w.files p.settings.project)),
        c.apply { project := some (Detection.project w.files p.settings.project) }⟩,
        { w with files := t, signals := w.signals.tail.tail }) := by
    rw [if_neg hno] at hselect
    exact execute_unselected hg hproject hsession hcap hc hq rfl hw hn hselect
  have hunselected {kind : String} (h : r.1.outcome = .error (.unsupportedProject kind)) :
      ¬ kindOf (languagesOf (Detection.walk w.files p.settings.project)) = java := by
    intro hyes
    have he : Toolchain.select p.toolchains
        (kindOf (languagesOf (Detection.walk w.files p.settings.project))) = _ :=
      unselected_of_unsupported (ht ▸ standardToolchains_honest _ _ _) hg hproject hsession h
    rw [if_pos hyes] at hselect
    obtain ⟨toolchain,hselect⟩ := hselect
    rw [hselect] at he
    cases he
  constructor
  · constructor
    · intro ⟨kind,h⟩ e he hx
      exact hunselected h (hjava.mpr ⟨e,he,hx⟩)
    · intro hnone
      refine ⟨_,congrArg (·.1.outcome) (hrefused ?_)⟩
      intro hyes
      obtain ⟨e,he,hx⟩ := hjava.mp hyes
      exact hnone e he hx
  · intro kind h
    have hr := hrefused (hunselected h)
    rw [hr] at h ⊢
    obtain rfl := Error.unsupportedProject.inj (Except.error.inj h)
    rw [hcontext]
    exact ⟨rfl,rfl,rfl,rfl,rfl,hcalls⟩

/-- The shop with the standard toolchain, which is not set up, on a machine that runs nothing. -/
def bareShop : Pipeline :=
  { shop with
    toolchains := standardToolchains shop.settings (fun _ _ _ t => ⟨.error .nulByte,t,false⟩) [] }

/-- A shop in which there is one entry. -/
def oneEntry (name : String) (n : Node) : World :=
  { shopWorld with files := { entries := [(["shop"],.dir),(["shop",name],n)], cwd := [] } }

/-- A run of the bare shop can leave its first notes, no entry of the shop belongs to a Java project, and
the run fails with the given error. -/
def failsBare (w₀ : World) (e : Error) : Bool :=
  match (start bareShop.settings "audit").run.run w₀ with
  | (.ok c,w) =>
    let found := Detection.project w.files "/shop"
    let noted := c.session.any fun s =>
      match s.writeJson w.files detectionFile found.toJson with
      | .ok (_,t) => (s.writeJson t (snapshotFile 1 detectionName)
          (c.apply { project := some found }).toJson).isOk
      | .error _ => false
    noted && !w.cancelled && w.signals.isEmpty &&
      (Detection.walk w.files "/shop").all (fun e => !decide e.CarriesJava) &&
      match ((bareShop.execute c).run w).1.outcome with
      | .error e' => e' == e
      | .ok _ => false
  | _ => false

theorem of_failsBare {w₀ : World} {e : Error} (h : failsBare w₀ e = true) :
    ∃ c w s t, (start bareShop.settings "audit").run.run w₀ = (.ok c,w) ∧ c.session = some s ∧
      Noted s c (Detection.project w.files "/shop") w.files t ∧ w.cancelled = false ∧ w.signals = [] ∧
      (∀ e ∈ Detection.walk w.files "/shop", ¬ e.CarriesJava) ∧
      ((bareShop.execute c).run w).1.outcome = .error e := by
  unfold failsBare at h
  split at h
  · rename_i c w hs
    simp only [Bool.and_eq_true,Option.any_eq_true] at h
    obtain ⟨⟨⟨⟨⟨s,hsession,hn⟩,hc⟩,hq⟩,hall⟩,ht⟩ := h
    have hout : ((bareShop.execute c).run w).1.outcome = .error e := by
      split at ht
      · rename_i e' he
        rw [he,eq_of_beq ht]
      · cases ht
    split at hn
    · rename_i path written hw
      rcases hn' : s.writeJson written (snapshotFile 1 detectionName) _ with e | ⟨path',t⟩
      · rw [hn'] at hn
        cases hn
      · refine ⟨c,w,s,t,hs,hsession,⟨path,path',written,hw,hn'⟩,by simpa using hc,by simpa using hq,?_,hout⟩
        simpa using hall
    · cases hn
  · cases h

theorem bareShop_graph : ∃ g, bareShop.graph = .ok g := by
  have hok : bareShop.graph.isOk = true := by decide +kernel
  cases hg : bareShop.graph with
  | error e =>
    rw [hg] at hok
    cases hok
  | ok g => exact ⟨g,rfl⟩

theorem execute_unsupported_bareShop :
    ∃ c w, (start bareShop.settings "audit").run.run (oneEntry "go.mod" (.file ⟨#[]⟩ false)) = (.ok c,w) ∧
      ((bareShop.execute c).run w).1.outcome = .error (.unsupportedProject "Go") ∧
      ((bareShop.execute c).run w).2.calls = [] := by
  have hfails : failsBare (oneEntry "go.mod" (.file ⟨#[]⟩ false)) (.unsupportedProject "Go") = true := by
    decide +kernel
  obtain ⟨c,w,s,t,hs,hsession,hn,hc,hq,_,hout⟩ := of_failsBare hfails
  obtain ⟨g,hg⟩ := bareShop_graph
  have hu := execute_unsupported (p := bareShop) rfl hs hg (by decide) hc (by simp [hq]) hsession hn
  exact ⟨c,w,hs,hout,(hu.2 _ hout).2.2.2.2.2⟩

/-- An entry of the name of a mark shows Java even where it is a directory: the run goes on to the
toolchain, which is not set up. -/
theorem directory_shows_java :
    ∃ c w s t, (start bareShop.settings "audit").run.run (oneEntry ".java" .dir) = (.ok c,w) ∧
      c.session = some s ∧ Noted s c (Detection.project w.files "/shop") w.files t ∧
      w.cancelled = false ∧ w.signals = [] ∧
      (∀ e ∈ Detection.walk w.files bareShop.settings.project, ¬ e.CarriesJava) ∧
      ∀ kind, ((bareShop.execute c).run w).1.outcome ≠ .error (.unsupportedProject kind) := by
  have hfails : failsBare (oneEntry ".java" .dir)
      (JavaTool.unset "java executable" "java_path" JavaTool.javaVariable) = true := by
    decide +kernel
  obtain ⟨c,w,s,t,hs,hsession,hn,hc,hq,hall,hout⟩ := of_failsBare hfails
  refine ⟨c,w,s,t,hs,hsession,hn,hc,hq,hall,?_⟩
  intro kind hx
  rw [hx] at hout
  cases hout

end Pipeline

end EndpointAudit
