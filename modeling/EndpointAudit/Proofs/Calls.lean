import EndpointAudit.Proofs.Discipline

namespace EndpointAudit

namespace Model

def Outcome.text? : Outcome → Option String
  | .completion text => some text
  | _ => none

/-- The completion that a call returned. -/
def Call.text? (call : Call) : Option String :=
  call.outcome.text?

/-- The calls about the endpoint at a place of the list. -/
def callsAbout (i : Nat) (calls : List Call) : List Call :=
  calls.filter (·.index == i)

@[simp] theorem callsAbout_append (i : Nat) (before after : List Call) :
    callsAbout i (before ++ after) = callsAbout i before ++ callsAbout i after :=
  List.filter_append before after

theorem callsAbout_own {i : Nat} {calls : List Call} (h : ∀ call ∈ calls, call.index = i) :
    callsAbout i calls = calls :=
  List.filter_eq_self.mpr fun call hm => by simp [h call hm]

theorem callsAbout_other {i j : Nat} {calls : List Call} (h : ∀ call ∈ calls, call.index = j)
    (hn : i ≠ j) : callsAbout i calls = [] :=
  List.filter_eq_nil_iff.mpr fun call hm => by simpa [h call hm] using hn.symm

theorem mem_callsAbout {i : Nat} {calls : List Call} {call : Call} :
    call ∈ callsAbout i calls ↔ call ∈ calls ∧ call.index = i := by
  simp [callsAbout]

end Model

namespace Analysis

open Model

/-- What an ending says of the calls made about its job. -/
def Ending.Accounts (job : Job) (made : List Call) : Ending Finding → Prop
  | .done f => f.index = job.index ∧ f.endpoint = job.endpoint ∧
      f.verdict = Completion.verdict f.text ∧ ∃ g, made = [⟨job.index,g,.completion f.text⟩]
  | _ => made.length ≤ 1 ∧ ∀ call ∈ made, call.text? = none

namespace Task

/-- Every way on from here accounts for the calls made so far and for those to come. -/
def Accounts (job : Job) (made : List Call) : Task Finding → Prop
  | .done f => (Ending.done f).Accounts job made
  | .failed e => (Ending.failed e).Accounts job made
  | .crashed message => (Ending.crashed message).Accounts job made
  | .readSpan _ next => made = [] ∧ ∀ code, (next code).Accounts job made
  | .lookUp _ next => made = [] ∧ ∀ answer, (next answer).Accounts job made
  | .generate i g next => i = job.index ∧ made = [] ∧
      ∀ text, (next text).Accounts job [⟨i,g,.completion text⟩]
  | .note _ next => next.Accounts job made

/-- A task that neither asks the model nor notes a call. -/
def Quiet : Task α → Prop
  | .readSpan _ next => ∀ code, (next code).Quiet
  | .lookUp _ next => ∀ answer, (next answer).Quiet
  | .generate _ _ _ => False
  | .note _ _ => False
  | _ => True

theorem Quiet.bind {t : Task α} {f : α → Task β} (h : t.Quiet) (hf : ∀ a, (f a).Quiet) :
    (t >>= f).Quiet := by
  change (t.bind f).Quiet
  induction t with
  | done a => exact hf a
  | failed e | crashed message => trivial
  | readSpan position next ih => exact fun code => ih code (h code)
  | lookUp symbol next ih => exact fun answer => ih answer (h answer)
  | generate index g next ih => exact h.elim
  | note entry next ih => exact h.elim

theorem Quiet.bind_accounts {job : Job} {t : Task α} {f : α → Task Finding} (h : t.Quiet)
    (hf : ∀ a, (f a).Accounts job []) : (t >>= f).Accounts job [] := by
  change (t.bind f).Accounts job []
  induction t with
  | done a => exact hf a
  | failed e | crashed message => exact ⟨Nat.zero_le 1,by simp⟩
  | readSpan position next ih => exact ⟨rfl,fun code => ih code (h code)⟩
  | lookUp symbol next ih => exact ⟨rfl,fun answer => ih answer (h answer)⟩
  | generate index g next ih => exact h.elim
  | note entry next ih => exact h.elim

end Task

theorem gather_quiet (symbols : List String) : (gather symbols).Quiet := by
  induction symbols with
  | nil => trivial
  | cons symbol symbols ih =>
    intro answer
    refine ih.bind ?_
    intro rest
    split <;> trivial

theorem prompt_quiet (p : Plan) (e : Endpoint) : (prompt p e).Quiet :=
  fun _ => (gather_quiet e.symbols).bind fun _ => trivial

theorem analyze_accounts (p : Plan) (job : Job) :
    (analyze p job.index job.endpoint).Accounts job [] := by
  unfold analyze
  refine (prompt_quiet p job.endpoint).bind_accounts ?_
  intro prompt
  simp only [Task.Accounts,Ending.Accounts,true_and]
  exact fun text => ⟨_,rfl⟩

namespace Task

theorem Accounts.ending {job : Job} {made : List Call} {t : Task Finding} {ending : Ending Finding}
    (h : t.Accounts job made) (he : t.ending? = some ending) : ending.Accounts job made := by
  cases t <;> cases he <;> exact h

variable {services : Services} {job : Job} {made : List Call} {t t' : Task Finding} {w w' : World}

/-- A step adds the calls it makes, all of them about the endpoint of the task. -/
theorem Accounts.step (h : t.Accounts job made) (hs : t.Steps services w t' w') :
    ∃ new, w'.calls = w.calls ++ new ∧ (∀ call ∈ new, call.index = job.index) ∧
      t'.Accounts job (made ++ new) := by
  have still (hc : w'.calls = w.calls) (ht : t'.Accounts job made) :
      ∃ new, w'.calls = w.calls ++ new ∧ (∀ call ∈ new, call.index = job.index) ∧
        t'.Accounts job (made ++ new) :=
    ⟨[],by simpa using hc,by simp,by simpa using ht⟩
  cases hs with
  | @read _ _ _ code =>
    obtain ⟨rfl,hn⟩ := h
    exact still rfl (hn code)
  | unreadable =>
    obtain ⟨rfl,_⟩ := h
    exact still rfl ⟨Nat.zero_le 1,by simp⟩
  | found looked =>
    obtain ⟨rfl,hn⟩ := h
    exact still (Services.definition_calls looked) (hn _)
  | broken looked =>
    obtain ⟨rfl,_⟩ := h
    exact still (Services.definition_calls looked) ⟨Nat.zero_le 1,by simp⟩
  | completed asked =>
    obtain ⟨rfl,rfl,hn⟩ := h
    exact ⟨[_],Services.answer_calls asked,by simp,hn _⟩
  | refused asked =>
    obtain ⟨rfl,rfl,_⟩ := h
    exact ⟨[_],Services.answer_calls asked,by simp,Nat.le_refl 1,by simp [Call.text?,Outcome.text?]⟩
  | crashed asked =>
    obtain ⟨rfl,rfl,_⟩ := h
    exact ⟨[_],Services.answer_calls asked,by simp,Nat.le_refl 1,by simp [Call.text?,Outcome.text?]⟩
  | noted => exact still (Services.log_calls _ w) h

end Task

namespace Pool

def Phase.Accounts (job : Job) (made : List Call) : Phase → Prop
  | .waiting => made = []
  | .working t => t.Accounts job made
  | .arrived (.ended ending) => ending.Accounts job made
  | .arrived .skipped => made = []

/-- A change makes calls about its own endpoint only, and accounts for them. -/
theorem Change.accounts {plan : Plan} {services : Services} {job : Job} {before after : Phase}
    {w w' : World} {made : List Call} (change : Change plan services job before w after w')
    (h : before.Accounts job made) :
    ∃ new, w'.calls = w.calls ++ new ∧ (∀ call ∈ new, call.index = job.index) ∧
      after.Accounts job (made ++ new) := by
  cases change with
  | start going =>
    obtain rfl : made = [] := h
    exact ⟨[],by simp,by simp,analyze_accounts plan job⟩
  | skip stopped =>
    obtain rfl : made = [] := h
    exact ⟨[],by simp,by simp,rfl⟩
  | step steps => exact Task.Accounts.step h steps
  | finish ended => exact ⟨[],by simp,by simp,by simpa [Phase.Accounts] using h.ending ended⟩

/-- The world of a batch over the endpoints at the given places that began after some calls. -/
def Asked (before : List Call) (places : List Nat) (w : World) : Prop :=
  ∃ new, w.calls = before ++ new ∧ ∀ call ∈ new, call.index ∈ places

/-- A job of that batch accounts for the calls that were made about it since. -/
def Accounted (before : List Call) (places : List Nat) (job : Job) (phase : Phase) (w : World) :
    Prop :=
  job.index ∈ places ∧
    ∃ new, w.calls = before ++ new ∧ phase.Accounts job (callsAbout job.index new)

theorem calls_discipline (plan : Plan) (services : Services) (before : List Call)
    (places : List Nat) :
    Discipline plan services True (fun _ => True) (Asked before places)
      (Accounted before places) where
  cancels _ hw := hw
  outlasts _ hj := hj
  world := by
    intro job phase w phase' w' change ⟨asked,hc,hi⟩ ⟨hm,old,ho,ha⟩
    obtain ⟨new,hn,hown,_⟩ := change.accounts ha
    refine ⟨asked ++ new,by rw [hn,hc,List.append_assoc],?_⟩
    intro call h
    rcases List.mem_append.mp h with h | h
    · exact hi call h
    · exact hown call h ▸ hm
  own := by
    intro job phase w phase' w' change _ _ ⟨hm,old,ho,ha⟩
    obtain ⟨new,hn,hown,hafter⟩ := change.accounts ha
    refine ⟨hm,old ++ new,by rw [hn,ho,List.append_assoc],?_⟩
    rwa [callsAbout_append,callsAbout_own hown]
  others := by
    intro job phase w phase' w' other phase₀ change _ ⟨_,_,_,ha⟩ hne ⟨hm,old,ho,hb⟩
    obtain ⟨new,hn,hown,_⟩ := change.accounts ha
    refine ⟨hm,old ++ new,by rw [hn,ho,List.append_assoc],?_⟩
    rwa [callsAbout_append,callsAbout_other hown hne,List.append_nil]

/-- However a batch takes its turns, all arrivals account for the calls made about them. -/
theorem run_accounted (plan : Plan) (services : Services) (workers : Nat) {jobs : List Job}
    (hd : (jobs.map Job.index).Nodup) (turns : List Turn) (w : World) :
    let r := Pool.run plan services workers jobs turns w
    ∃ new, r.2.calls = w.calls ++ new ∧ (∀ call ∈ new, call.index ∈ jobs.map Job.index) ∧
      (∀ x ∈ r.1, (Phase.arrived x.2).Accounts x.1 (callsAbout x.1.index new)) ∧
      (r.1.map Prod.fst).Perm jobs := by
  intro r
  have hw : Asked w.calls (jobs.map Job.index) w := ⟨[],by simp,by simp⟩
  have hj : ∀ job ∈ jobs, Accounted w.calls (jobs.map Job.index) job .waiting w :=
    fun job hm => ⟨List.mem_map_of_mem hm,[],by simp,rfl⟩
  obtain ⟨⟨new,hn,hi⟩,ha,hp⟩ :=
    (calls_discipline plan services w.calls (jobs.map Job.index)).run hd workers
      (fun _ : .cancel ∈ turns => trivial) (fun _ _ => trivial) hw hj
  refine ⟨new,hn,hi,?_,hp⟩
  intro x hx
  obtain ⟨_,new',hn',hx'⟩ := ha x hx
  obtain rfl := List.append_cancel_left (hn.symm.trans hn')
  exact hx'

end Pool

end Analysis

end EndpointAudit
