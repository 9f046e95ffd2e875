import EndpointAudit.Proofs.Moves

namespace EndpointAudit.Analysis

/-- What a task can ask of the world around it. -/
inductive TaskRequest
  | code (position : String)
  | definition (symbol : String)
  | completion (g : Model.Generation)
  | log (entry : CallLog.Entry)

namespace Task

/-- What a task asks for next, if it has not ended. -/
def request? : Task α → Option TaskRequest
  | .readSpan position _ => some (.code position)
  | .lookUp symbol _ => some (.definition symbol)
  | .generate _ g _ => some (.completion g)
  | .note entry _ => some (.log entry)
  | _ => none

variable {services : Services} {t t' : Task α} {w w' : World}

/-- A cancellation is never taken back. -/
theorem Steps.stays_cancelled (h : t.Steps services w t' w') (hc : w.cancelled = true) :
    w'.cancelled = true := by
  cases h with
  | read | unreadable => exact hc
  | found looked | broken looked =>
    obtain rfl : (services.definition _ w).2 = w' := congrArg Prod.snd looked
    simp [Services.definition,hc]
  | completed asked | refused asked | crashed asked =>
    obtain rfl : (services.answer _ _ w).2 = w' := congrArg Prod.snd asked
    simp [Services.answer,hc]
  | noted => exact (services.log_cancelled _ w).trans hc

end Task

namespace Pool

variable {plan : Plan} {services : Services} {mayCancel : Prop}

/-- The turn of a job in which its task asks something of the world. -/
inductive Asks (services : Services) (job : Job) (request : TaskRequest) :
    Pool × World → Pool × World → Prop
  | of {pre post arrivals t t' w w'} (wanted : t.request? = some request)
    (steps : t.Steps services w t' w') :
    Asks services job request (⟨pre ++ ⟨job,.working t⟩ :: post,arrivals⟩,w)
      (⟨pre ++ ⟨job,.working t'⟩ :: post,arrivals⟩,w')

def Works (p : Pool) (job : Job) : Prop :=
  ∃ t, (⟨job,.working t⟩ : Slot) ∈ p.slots

def Waits (p : Pool) (job : Job) : Prop :=
  (⟨job,.waiting⟩ : Slot) ∈ p.slots

theorem Asks.works {job : Job} {request : TaskRequest} {a b : Pool × World}
    (h : Asks services job request a b) : a.1.Works job := by
  cases h with
  | of wanted steps => exact ⟨_,List.mem_append_right _ List.mem_cons_self⟩

section Replaced

variable {pre post : List Slot} {arrivals : List (Job × Arrival)} {job other : Job}
  {standing : Standing}

/-- All slots but one stay when that one is replaced. -/
theorem mem_replaced {slot : Slot} (new : Slot) {s : Slot} (h : s ∈ pre ++ slot :: post) :
    s = slot ∨ s ∈ pre ++ new :: post := by
  simp only [List.mem_append,List.mem_cons] at h ⊢
  rcases h with h | h | h
  · exact .inr (.inl h)
  · exact .inl h
  · exact .inr (.inr (.inr h))

theorem works_replaced (new : Standing) (arrivals' : List (Job × Arrival))
    (h : Works ⟨pre ++ ⟨job,standing⟩ :: post,arrivals⟩ other) :
    (other = job ∧ ∃ t, standing = .working t) ∨
      Works ⟨pre ++ ⟨job,new⟩ :: post,arrivals'⟩ other := by
  obtain ⟨t,ht⟩ := h
  rcases mem_replaced ⟨job,new⟩ ht with he | ht
  · obtain ⟨rfl,hs⟩ := Slot.mk.inj he
    exact .inl ⟨rfl,t,hs.symm⟩
  · exact .inr ⟨t,ht⟩

theorem waits_replaced (new : Standing) (arrivals' : List (Job × Arrival))
    (h : Waits ⟨pre ++ ⟨job,standing⟩ :: post,arrivals⟩ other) :
    (other = job ∧ standing = .waiting) ∨
      Waits ⟨pre ++ ⟨job,new⟩ :: post,arrivals'⟩ other := by
  rcases mem_replaced ⟨job,new⟩ h with he | h
  · obtain ⟨rfl,hs⟩ := Slot.mk.inj he
    exact .inl ⟨rfl,hs.symm⟩
  · exact .inr h

end Replaced

/-- What a change of a job can be once the run is cancelled. -/
theorem Change.cut_off {job : Job} {before after : Phase} {w w' : World}
    (change : Change plan services job before w after w') (hc : w.cancelled = true) :
    w'.cancelled = true ∧
      (before = .waiting ∧ after = .arrived .skipped ∨
        (∃ t, before = .working t) ∧
          ((∃ t, after = .working t) ∨ ∃ ending, after = .arrived (.ended ending))) := by
  cases change with
  | start going =>
    rw [hc] at going
    cases going
  | skip stopped => exact ⟨hc,.inl ⟨rfl,rfl⟩⟩
  | step steps => exact ⟨steps.stays_cancelled hc,.inr ⟨⟨_,rfl⟩,.inl ⟨_,rfl⟩⟩⟩
  | finish ended => exact ⟨hc,.inr ⟨⟨_,rfl⟩,.inr ⟨_,rfl⟩⟩⟩

/-- What has become of the tasks of a pool since it was cut off. -/
structure CutOff (m : Pool) (p : Pool) (w : World) : Prop where
  cancelled : w.cancelled = true
  works : ∀ job, p.Works job → m.Works job
  waited : ∀ job, m.Waits job → p.Waits job ∨ (job,.skipped) ∈ p.arrivals
  worked : ∀ job, m.Works job → p.Works job ∨ ∃ ending, (job,.ended ending) ∈ p.arrivals
  arrived : ∀ x ∈ m.arrivals, x ∈ p.arrivals

theorem CutOff.refl {p : Pool} {w : World} (h : w.cancelled = true) : CutOff p p w :=
  ⟨h,fun _ => id,fun _ => .inl,fun _ => .inl,fun _ => id⟩

theorem CutOff.move {m p p' : Pool} {w w' : World} (h : CutOff m p w)
    (hm : Move plan services mayCancel (p,w) (p',w')) : CutOff m p' w' := by
  cases hm with
  | cancel may => exact ⟨rfl,h.works,h.waited,h.worked,h.arrived⟩
  | @task pre post arrivals job before after _ _ change =>
    obtain ⟨hc,hchange⟩ := change.cut_off h.cancelled
    have kept {x : Job × Arrival} (hx : x ∈ arrivals) :
        x ∈ arrivals ++ (after.arrival?.map (job,·)).toList :=
      List.mem_append_left _ hx
    refine ⟨hc,?_,?_,?_,fun x hx => kept (h.arrived x hx)⟩
    · intro j hj
      rcases works_replaced before.standing arrivals hj with ⟨rfl,t,ht⟩ | hj
      · rcases hchange with ⟨_,rfl⟩ | ⟨⟨t₀,rfl⟩,_⟩
        · cases ht
        · exact h.works j ⟨t₀,List.mem_append_right _ List.mem_cons_self⟩
      · exact h.works j hj
    · intro j hj
      rcases h.waited j hj with hj | ha
      · rcases waits_replaced after.standing _ hj with ⟨rfl,hs⟩ | hj
        · rcases hchange with ⟨_,rfl⟩ | ⟨⟨t₀,rfl⟩,_⟩
          · exact .inr (List.mem_append_right _ (List.mem_singleton_self _))
          · cases hs
        · exact .inl hj
      · exact .inr (kept ha)
    · intro j hj
      rcases h.worked j hj with hj | ⟨ending,ha⟩
      · rcases works_replaced after.standing _ hj with ⟨rfl,t,ht⟩ | hj
        · rcases hchange with ⟨rfl,_⟩ | ⟨_,⟨t',rfl⟩ | ⟨ending,rfl⟩⟩
          · cases ht
          · exact .inl ⟨t',List.mem_append_right _ List.mem_cons_self⟩
          · exact .inr ⟨ending,List.mem_append_right _ (List.mem_singleton_self _)⟩
        · exact .inl hj
      · exact .inr ⟨ending,kept ha⟩

theorem CutOff.moves {m p : Pool} {w : World} {b : Pool × World} (h : CutOff m p w)
    (hm : Moves plan services mayCancel (p,w) b) : CutOff m b.1 b.2 := by
  induction hm with
  | refl => exact h
  | tail _ hm ih => exact ih.move hm

/-- A cancellation cuts a batch in two: from then on only tasks that were already at work ask anything
of the world, those that were waiting are skipped, and those that were at work hand in how they ended
beside what has arrived before. -/
theorem cut_off {m b : Pool × World} (hb : Moves plan services mayCancel m b)
    (hc : m.2.cancelled = true) (hs : ∀ slot ∈ b.1.slots, slot.standing = .handedIn) :
    (∀ s s' job request, Moves plan services mayCancel m s → Asks services job request s s' →
      m.1.Works job) ∧
    (∀ job, m.1.Waits job → (job,.skipped) ∈ b.1.arrivals) ∧
    (∀ job, m.1.Works job → ∃ ending, (job,.ended ending) ∈ b.1.arrivals) ∧
    ∀ x ∈ m.1.arrivals, x ∈ b.1.arrivals := by
  have hcut {s : Pool × World} (hm : Moves plan services mayCancel m s) : CutOff m.1 s.1 s.2 :=
    (CutOff.refl hc).moves hm
  refine ⟨fun s s' job request hm ha => (hcut hm).works job ha.works,?_,?_,(hcut hb).arrived⟩
  · intro job hj
    rcases (hcut hb).waited job hj with hw | ha
    · cases hs _ hw
    · exact ha
  · intro job hj
    rcases (hcut hb).worked job hj with ⟨t,hw⟩ | ha
    · cases hs _ hw
    · exact ha

end Pool

end EndpointAudit.Analysis
