import EndpointAudit.Proofs.LogEntries
import EndpointAudit.Proofs.Moves

namespace EndpointAudit.Analysis

/-- In no world that the batch can reach does a position of its jobs read differently. -/
def Undisturbed (plan : Plan) (services : Services) (jobs : List Job) (w : World) : Prop :=
  ∀ p w', Pool.Moves plan services False (Pool.ofJobs jobs,w) (p,w') → ∀ job ∈ jobs,
    services.code job.endpoint.position w' = services.code job.endpoint.position w

/-- The world with other progress shown and other batches ahead, neither of which tasks look at. -/
def showing (progress : List Progress) (turns : List (List Turn)) (refusals : List (Option String))
    (w : World) : World :=
  { w with progress, turns, refusals }

namespace Services

variable (s : Services) (progress : List Progress) (turns : List (List Turn))
  (refusals : List (Option String)) (w : World)

theorem definition_showing (symbol : String) : s.definition symbol (showing progress turns refusals w) =
    ((s.definition symbol w).1,showing progress turns refusals (s.definition symbol w).2) :=
  rfl

theorem answer_showing (i : Nat) (g : Model.Generation) :
    s.answer i g (showing progress turns refusals w) =
      ((s.answer i g w).1,showing progress turns refusals (s.answer i g w).2) :=
  rfl

theorem log_showing (entry : CallLog.Entry) :
    s.log entry (showing progress turns refusals w) = showing progress turns refusals (s.log entry w) := by
  simp only [log,showing]
  cases s.callDir with
  | none => rfl
  | some dir =>
    simp only
    cases CallLog.write w.files dir w.clock.time (w.logged + 1) entry <;> rfl

end Services

theorem Task.Steps.showing {services : Services} {t t' : Task α} {w w' : World}
    (steps : t.Steps services w t' w') (progress : List Progress) (turns : List (List Turn))
    (refusals : List (Option String)) :
    t.Steps services (showing progress turns refusals w) t' (showing progress turns refusals w') := by
  cases steps with
  | read hr => exact .read hr
  | unreadable hr => exact .unreadable hr
  | found looked => exact .found (by rw [services.definition_showing,looked])
  | broken looked => exact .broken (by rw [services.definition_showing,looked])
  | completed asked => exact .completed (by rw [services.answer_showing,asked])
  | refused asked => exact .refused (by rw [services.answer_showing,asked])
  | crashed asked => exact .crashed (by rw [services.answer_showing,asked])
  | noted =>
    rw [← services.log_showing]
    exact .noted

namespace Pool

variable {plan : Plan} {services : Services} {mayCancel : Prop}

theorem Change.showing {job : Job} {before after : Phase} {w w' : World}
    (change : Change plan services job before w after w') (progress : List Progress)
    (turns : List (List Turn)) (refusals : List (Option String)) :
    Change plan services job before (showing progress turns refusals w) after
      (showing progress turns refusals w') := by
  cases change with
  | start going => exact .start going
  | skip stopped => exact .skip stopped
  | step steps => exact .step (steps.showing progress turns refusals)
  | finish ended => exact .finish ended

theorem Moves.showing {a b : Pool × World} (h : Moves plan services mayCancel a b)
    (progress : List Progress) (turns : List (List Turn)) (refusals : List (Option String)) :
    Moves plan services mayCancel (a.1,showing progress turns refusals a.2)
      (b.1,showing progress turns refusals b.2) := by
  induction h with
  | refl => exact .refl
  | tail _ hm ih =>
    refine ih.tail ?_
    cases hm with
    | cancel may => exact .cancel may
    | task change => exact .task (change.showing progress turns refusals)

end Pool

/-- What is shown and what is ahead of later batches does not disturb a batch. -/
theorem Undisturbed.showing {plan : Plan} {services : Services} {jobs : List Job} {w : World}
    (h : Undisturbed plan services jobs w) (progress : List Progress) (turns : List (List Turn))
    (refusals : List (Option String)) : Undisturbed plan services jobs (showing progress turns refusals w) :=
  fun p w' hm job hj => h p (Analysis.showing w.progress w.turns w.refusals w')
    (Pool.Moves.showing hm w.progress w.turns w.refusals) job hj

/-- Where lookups leave the files alone, a step can change them by an entry of the log only. -/
theorem Task.Steps.files {services : Services} {t t' : Task α} {w w' : World}
    (steps : t.Steps services w t' w')
    (hl : ∀ symbol t, (services.lookup services.root symbol t).files = t) :
    w'.files = w.files ∨ ∃ dir ∈ services.callDir, ∃ number e bytes,
      w.files.write (Path.join dir (CallLog.fileName number e)) bytes = .ok w'.files := by
  cases steps with
  | read | unreadable => exact .inl rfl
  | found looked | broken looked =>
    exact .inl ((congrArg (·.2.files) looked.symm).trans (hl _ w.files))
  | completed asked | refused asked | crashed asked => exact .inl (Services.answer_files asked)
  | @noted entry _ _ =>
    refine (services.log_files entry w).imp_right ?_
    intro ⟨dir,hd,number,bytes,hw⟩
    exact ⟨dir,hd,number,entry.endpoint,bytes,hw⟩

/-- No job has its code where an entry of the log can be. -/
def OutsideLog (services : Services) (jobs : List Job) (t : FileTree) : Prop :=
  ∀ dir ∈ services.callDir, ∀ job ∈ jobs, ∀ s, CodeSpan.parse job.endpoint.position = .ok s →
    ∀ number e, t.Apart (Path.join services.root s.path) (Path.join dir (CallLog.fileName number e))

namespace OutsideLog

variable {services : Services} {jobs : List Job}

/-- No write can change where code and entries are. -/
theorem write {t t' : FileTree} (ho : OutsideLog services jobs t) {path : String} {bytes : ByteArray}
    (hw : t.write path bytes = .ok t') : OutsideLog services jobs t' :=
  fun dir hd job hj s hs number e => (ho dir hd job hj s hs number e).write hw

theorem steps {t t' : Task α} {w w' : World} (ho : OutsideLog services jobs w.files)
    (steps : t.Steps services w t' w')
    (hl : ∀ symbol t, (services.lookup services.root symbol t).files = t) :
    OutsideLog services jobs w'.files ∧ ∀ job ∈ jobs,
      services.code job.endpoint.position w' = services.code job.endpoint.position w := by
  rcases steps.files hl with he | ⟨dir,hd,number,e,bytes,hw⟩
  · unfold Services.code
    rw [he]
    exact ⟨ho,fun _ _ => rfl⟩
  · refine ⟨ho.write hw,?_⟩
    intro job hj
    exact CodeSpan.extract_write (fun s hs => ho dir hd job hj s hs number e) hw

/-- Lookups that leave the files alone, and code outside of the log, are enough. -/
theorem undisturbed {w : World} (ho : OutsideLog services jobs w.files) (plan : Plan)
    (hl : ∀ symbol t, (services.lookup services.root symbol t).files = t) :
    Undisturbed plan services jobs w := by
  have hmoves {s : Pool × World} (hm : Pool.Moves plan services False (Pool.ofJobs jobs,w) s) :
      OutsideLog services jobs s.2.files ∧ ∀ job ∈ jobs,
        services.code job.endpoint.position s.2 = services.code job.endpoint.position w := by
    induction hm with
    | refl => exact ⟨ho,fun _ _ => rfl⟩
    | tail _ hm ih =>
      cases hm with
      | cancel may => exact ih
      | task change =>
        cases change with
        | start going | skip stopped | finish ended => exact ih
        | step steps =>
          obtain ⟨ho',hc⟩ := ih.1.steps steps hl
          exact ⟨ho',fun job hj => (hc job hj).trans (ih.2 job hj)⟩
  intro p w' hm job hj
  exact (hmoves hm).2 job hj

end OutsideLog

end EndpointAudit.Analysis
