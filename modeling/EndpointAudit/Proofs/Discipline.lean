import EndpointAudit.Proofs.Moves
import Mathlib.Data.List.Perm.Basic

namespace EndpointAudit.Analysis.Pool

variable {plan : Plan} {services : Services} {mayCancel : Prop} {given inWorld : World → Prop}
  {each : Job → Phase → World → Prop}

structure Discipline (plan : Plan) (services : Services) (mayCancel : Prop)
    (given inWorld : World → Prop) (each : Job → Phase → World → Prop) : Prop where
  cancels : ∀ {w}, mayCancel → inWorld w → inWorld { w with cancelled := true }
  outlasts : ∀ {job phase w}, mayCancel → each job phase w → each job phase { w with cancelled := true }
  world : ∀ {job before w after w'}, Change plan services job before w after w' → inWorld w →
    each job before w → inWorld w'
  own : ∀ {job before w after w'}, Change plan services job before w after w' → given w →
    inWorld w → each job before w → each job after w'
  others : ∀ {job before w after w' other phase}, Change plan services job before w after w' →
    inWorld w → each job before w → other.index ≠ job.index → each other phase w →
    each other phase w'

/-- A pool in which each job stands in a phase, and which the arrivals of those phases have reached in
some order. -/
structure Orderly (jobs : List Job) (inWorld : World → Prop) (each : Job → Phase → World → Prop)
    (phases : List (Job × Phase)) (p : Pool) (w : World) : Prop where
  slots_eq : p.slots = phases.map fun x => ⟨x.1,x.2.standing⟩
  jobs_eq : phases.map Prod.fst = jobs
  arrived : p.arrivals.Perm (phases.filterMap fun x => x.2.arrival?.map (x.1,·))
  world : inWorld w
  each : ∀ x ∈ phases, each x.1 x.2 w

/-- A job changes only before it has handed in, and then it shows in which phase it is. -/
theorem Change.shows {job : Job} {before after phase : Phase} {w w' : World}
    (change : Change plan services job before w after w') (h : phase.standing = before.standing) :
    phase = before ∧ before.arrival? = none := by
  cases change <;> cases phase <;> cases h <;> exact ⟨rfl,rfl⟩

theorem Orderly.move (d : Discipline plan services mayCancel given inWorld each) {jobs : List Job}
    (hd : (jobs.map Job.index).Nodup) {phases : List (Job × Phase)} {p p' : Pool} {w w' : World}
    (ho : Orderly jobs inWorld each phases p w) (hg : given w)
    (hm : Move plan services mayCancel (p,w) (p',w')) :
    ∃ phases', Orderly jobs inWorld each phases' p' w' := by
  cases hm with
  | cancel may =>
    exact ⟨phases,ho.slots_eq,ho.jobs_eq,ho.arrived,d.cancels may ho.world,
      fun x hx => d.outlasts may (ho.each x hx)⟩
  | @task pre post arrivals job before after _ _ change =>
    obtain ⟨front,back,rfl,hf,hb⟩ := List.map_eq_append_iff.mp ho.slots_eq.symm
    obtain ⟨⟨other,phase⟩,rest,rfl,hx,hr⟩ := List.map_eq_cons_iff.mp hb
    simp only [Slot.mk.injEq] at hx
    obtain ⟨rfl,hs⟩ := hx
    obtain ⟨rfl,hn⟩ := change.shows hs
    have hjob : each other phase w := ho.each (other,phase) (by simp)
    refine ⟨front ++ (other,after) :: rest,?_,?_,?_,d.world change ho.world hjob,?_⟩
    · simp [hf,hr]
    · simpa using ho.jobs_eq
    · have ha := ho.arrived
      simp only [List.filterMap_append,List.filterMap_cons,hn,Option.map_none] at ha ⊢
      cases after.arrival? with
      | none => simpa using ha
      | some a =>
        refine (List.Perm.append_right [(other,a)] ha).trans ?_
        rw [List.append_assoc]
        exact List.Perm.append_left _ (List.perm_append_singleton _ _)
    · -- The frame is for jobs with another index, and no two jobs of a batch share one.
      rw [← ho.jobs_eq] at hd
      simp only [List.map_append,List.map_cons,List.map_map,List.nodup_append,List.nodup_cons] at hd
      obtain ⟨_,⟨hback,_⟩,hfront⟩ := hd
      have hother : ∀ x ∈ front ++ rest, x.1.index ≠ other.index := by
        intro x hx he
        rcases List.mem_append.mp hx with hx | hx
        · exact hfront _ (List.mem_map_of_mem hx) _ List.mem_cons_self he
        · exact hback (he ▸ List.mem_map_of_mem hx)
      intro x hx
      rw [List.mem_append,List.mem_cons] at hx
      rcases hx with hx | rfl | hx
      · exact d.others change ho.world hjob (hother x (List.mem_append_left _ hx))
          (ho.each x (by simp [hx]))
      · exact d.own change hg ho.world hjob
      · exact d.others change ho.world hjob (hother x (List.mem_append_right _ hx))
          (ho.each x (by simp [hx]))

theorem Orderly.moves (d : Discipline plan services mayCancel given inWorld each) {jobs : List Job}
    (hd : (jobs.map Job.index).Nodup) {phases : List (Job × Phase)} {a b : Pool × World}
    (ho : Orderly jobs inWorld each phases a.1 a.2)
    (hg : ∀ s, Moves plan services mayCancel a s → given s.2)
    (hm : Moves plan services mayCancel a b) :
    ∃ phases', Orderly jobs inWorld each phases' b.1 b.2 := by
  induction hm with
  | refl => exact ⟨phases,ho⟩
  | tail hr hm ih =>
    obtain ⟨between,hb⟩ := ih
    exact hb.move d hd (hg _ hr) hm

theorem orderly_ofJobs {jobs : List Job} {w : World} (hw : inWorld w)
    (hj : ∀ job ∈ jobs, each job .waiting w) :
    Orderly jobs inWorld each (jobs.map (·,.waiting)) (ofJobs jobs) w := by
  refine ⟨?_,?_,?_,hw,?_⟩
  · simp [ofJobs,Phase.standing]
  · simp [Function.comp_def]
  · simp [ofJobs,Phase.arrival?]
  · intro x hx
    obtain ⟨job,hm,rfl⟩ := List.mem_map.mp hx
    exact hj job hm

/-- Once all jobs have handed in, the arrivals are all that there is. -/
theorem Orderly.arrivals {jobs : List Job} {phases : List (Job × Phase)} {p : Pool} {w : World}
    (ho : Orderly jobs inWorld each phases p w) (hs : ∀ slot ∈ p.slots, slot.standing = .handedIn) :
    (∀ x ∈ p.arrivals, each x.1 (.arrived x.2) w) ∧ (p.arrivals.map Prod.fst).Perm jobs := by
  have hall : ∀ x ∈ phases, ∃ a, x.2 = .arrived a := by
    intro x hx
    have hh := hs ⟨x.1,x.2.standing⟩ (by rw [ho.slots_eq]; exact List.mem_map_of_mem hx)
    obtain ⟨job,phase⟩ := x
    cases phase <;> cases hh
    exact ⟨_,rfl⟩
  constructor
  · intro x hx
    obtain ⟨y,hy,he⟩ := List.mem_filterMap.mp (ho.arrived.mem_iff.mp hx)
    obtain ⟨a,ha⟩ := hall y hy
    have hj := ho.each y hy
    rw [ha] at he hj
    cases he
    exact hj
  · refine (ho.arrived.map Prod.fst).trans (List.Perm.of_eq ?_)
    rw [← ho.jobs_eq,List.map_filterMap,← List.filterMap_eq_map]
    refine List.filterMap_congr ?_
    intro x hx
    obtain ⟨a,ha⟩ := hall x hx
    simp [ha,Phase.arrival?]

theorem Discipline.run (d : Discipline plan services mayCancel given inWorld each) {jobs : List Job}
    (hd : (jobs.map Job.index).Nodup) (workers : Nat) {turns : List Turn}
    (ht : .cancel ∈ turns → mayCancel) {w : World}
    (hg : ∀ s, Moves plan services mayCancel (ofJobs jobs,w) s → given s.2) (hw : inWorld w)
    (hj : ∀ job ∈ jobs, each job .waiting w) :
    let r := Pool.run plan services workers jobs turns w
    inWorld r.2 ∧ (∀ x ∈ r.1, each x.1 (.arrived x.2) r.2) ∧ (r.1.map Prod.fst).Perm jobs := by
  intro r
  obtain ⟨p,hm,ha,hs⟩ := run_pool_moves workers jobs turns ht w
  obtain ⟨phases,ho⟩ := (orderly_ofJobs hw hj).moves d hd hg hm
  have hr := ho.arrivals hs
  rw [ha] at hr
  exact ⟨ho.world,hr⟩

end EndpointAudit.Analysis.Pool
