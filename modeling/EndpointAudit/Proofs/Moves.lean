import EndpointAudit.Analysis.Pool
import EndpointAudit.Proofs.TaskSteps
import Mathlib.Data.List.Nodup

namespace EndpointAudit.Analysis.Pool

/-- Where a job stands, together with what it handed in. -/
inductive Phase
  | waiting
  | working (t : Task Finding)
  | arrived (a : Arrival)

namespace Phase

def standing : Phase → Standing
  | waiting => .waiting
  | working t => .working t
  | arrived _ => .handedIn

def arrival? : Phase → Option Arrival
  | arrived a => some a
  | _ => none

end Phase

/-- What the turn of one job can do with its phase and with the world. -/
inductive Change (plan : Plan) (services : Services) (job : Job) :
    Phase → World → Phase → World → Prop
  | start {w} (going : w.cancelled = false) :
    Change plan services job .waiting w (.working (analyze plan job.index job.endpoint)) w
  | skip {w} (stopped : w.cancelled = true) :
    Change plan services job .waiting w (.arrived .skipped) w
  | step {t w t' w'} (steps : t.Steps services w t' w') :
    Change plan services job (.working t) w (.working t') w'
  | finish {t w ending} (ended : t.ending? = some ending) :
    Change plan services job (.working t) w (.arrived (.ended ending)) w

/-- One job of a pool changes, or the run is cancelled where that may happen. -/
inductive Move (plan : Plan) (services : Services) (mayCancel : Prop) :
    Pool × World → Pool × World → Prop
  | cancel {p w} (may : mayCancel) :
    Move plan services mayCancel (p,w) (p,{ w with cancelled := true })
  | task {pre post arrivals job before after w w'}
    (change : Change plan services job before w after w') :
    Move plan services mayCancel
      (⟨pre ++ ⟨job,before.standing⟩ :: post,arrivals⟩,w)
      (⟨pre ++ ⟨job,after.standing⟩ :: post,arrivals ++ (after.arrival?.map (job,·)).toList⟩,w')

abbrev Moves (plan : Plan) (services : Services) (mayCancel : Prop) (a b : Pool × World) : Prop :=
  Relation.ReflTransGen (Move plan services mayCancel) a b

variable {plan : Plan} {services : Services} {mayCancel : Prop}

theorem modify_append (pre post : List Slot) (slot : Slot) (f : Slot → Slot) :
    (pre ++ slot :: post).modify pre.length f = pre ++ f slot :: post := by
  induction pre with
  | nil => rfl
  | cons d pre ih => simpa using ih

theorem slots_split {slots : List Slot} {place : Nat} {slot : Slot} (h : slots[place]? = some slot) :
    ∃ pre post, slots = pre ++ slot :: post ∧ pre.length = place := by
  obtain ⟨hl,he⟩ := List.getElem?_eq_some_iff.mp h
  refine ⟨slots.take place,slots.drop (place + 1),?_,by simp; omega⟩
  rw [← he,← List.drop_eq_getElem_cons hl,List.take_append_drop]

theorem Move.goes_on {pre post : List Slot} {arrivals : List (Job × Arrival)} {job : Job}
    {before : Phase} {w w' : World} {t : Task Finding}
    (change : Change plan services job before w (.working t) w') :
    Move plan services mayCancel (⟨pre ++ ⟨job,before.standing⟩ :: post,arrivals⟩,w)
      (⟨pre ++ ⟨job,.working t⟩ :: post,arrivals⟩,w') := by
  have h : Move plan services mayCancel (⟨pre ++ ⟨job,before.standing⟩ :: post,arrivals⟩,w) _ :=
    .task change
  simpa only [Phase.standing,Phase.arrival?,Option.map_none,Option.toList_none,List.append_nil] using h

theorem advance_moves (workers place : Nat) (p : Pool) (w : World) :
    Moves plan services mayCancel (p,w) (p.advance plan services workers place w) := by
  unfold advance
  cases hs : p.slots[place]? with
  | none => exact .refl
  | some slot =>
    obtain ⟨pre,post,hp,rfl⟩ := slots_split hs
    obtain ⟨slots,arrivals⟩ := p
    obtain ⟨job,standing⟩ := slot
    simp only at hp
    subst hp
    simp only [handIn,setStanding,modify_append]
    cases standing with
    | handedIn => exact .refl
    | waiting =>
      simp only
      split
      · exact .refl
      · cases hc : w.cancelled with
        | true =>
          have hm : Change plan services job .waiting w _ w := .skip hc
          exact .single (.task hm)
        | false =>
          have hm : Change plan services job .waiting w _ w := .start hc
          exact .single (.goes_on hm)
    | working t =>
      simp only
      cases he : t.ending? with
      | some ending =>
        have hm : Change plan services job (.working t) w _ w := .finish he
        exact .single (.task hm)
      | none =>
        have hm : Change plan services job (.working t) w _ _ := .step (t.step_steps services he w)
        exact .single (.goes_on hm)

theorem takeTurn_moves (workers : Nat) (turn : Turn) (h : turn = .cancel → mayCancel) (p : Pool)
    (w : World) :
    Moves plan services mayCancel (p,w) (p.takeTurn plan services workers w turn) := by
  cases turn with
  | cancel => exact .single (.cancel (h rfl))
  | task place => exact advance_moves workers place p w

theorem takeTurns_moves (workers : Nat) (turns : List Turn) (h : .cancel ∈ turns → mayCancel)
    (p : Pool) (w : World) :
    Moves plan services mayCancel (p,w) (p.takeTurns plan services workers w turns) := by
  induction turns generalizing p w with
  | nil => exact .refl
  | cons turn turns ih =>
    have ht : Moves plan services mayCancel (p,w) _ :=
      takeTurn_moves workers turn (fun he => h (he ▸ List.mem_cons_self)) p w
    exact ht.trans (ih (fun hm => h (List.mem_cons_of_mem _ hm)) _ _)

/-- A task that is carried out in one go hands in its ending, too. -/
theorem run_moves (pre post : List Slot) (arrivals : List (Job × Arrival)) (job : Job)
    (t : Task Finding) (w : World) :
    Moves plan services mayCancel (⟨pre ++ ⟨job,.working t⟩ :: post,arrivals⟩,w)
      (⟨pre ++ ⟨job,.handedIn⟩ :: post,arrivals ++ [(job,.ended (t.run services w).1)]⟩,
        (t.run services w).2) := by
  obtain ⟨t',hn,he⟩ := t.run_next services w
  have hs : Moves plan services mayCancel (⟨pre ++ ⟨job,.working t⟩ :: post,arrivals⟩,w)
      (⟨pre ++ ⟨job,.working t'⟩ :: post,arrivals⟩,(t.run services w).2) := by
    refine hn.lift (fun s => (Pool.mk (pre ++ ⟨job,.working s.1⟩ :: post) arrivals,s.2)) ?_
    intro a b h
    have hc : Change plan services job (.working a.1) a.2 (.working b.1) b.2 := .step h
    exact .goes_on hc
  have hf : Change plan services job (.working t') (t.run services w).2 _ _ := .finish he
  exact hs.tail (.task hf)

/-- The slot after the tasks that have started are ended. -/
def endWorking (slot : Slot) : Slot :=
  match slot.standing with
  | .working _ => { slot with standing := .handedIn }
  | _ => slot

/-- The slot after the tasks that have not started are carried out. -/
def endWaiting (slot : Slot) : Slot :=
  match slot.standing with
  | .waiting => { slot with standing := .handedIn }
  | _ => slot

theorem finishWorking_moves (pre slots : List Slot) (arrivals : List (Job × Arrival)) (w : World) :
    Moves plan services mayCancel (⟨pre ++ slots,arrivals⟩,w)
      (⟨pre ++ slots.map endWorking,arrivals ++ (finishWorking services slots w).1⟩,
        (finishWorking services slots w).2) := by
  induction slots generalizing pre arrivals w with
  | nil =>
    simp only [List.map_nil,finishWorking,List.append_nil]
    exact .refl
  | cons slot slots ih =>
    obtain ⟨job,standing⟩ := slot
    cases standing with
    | waiting =>
      have hi := ih (pre ++ [⟨job,.waiting⟩]) arrivals w
      simp only [List.append_assoc,List.singleton_append] at hi
      exact hi
    | handedIn =>
      have hi := ih (pre ++ [⟨job,.handedIn⟩]) arrivals w
      simp only [List.append_assoc,List.singleton_append] at hi
      exact hi
    | working t =>
      refine (run_moves pre slots arrivals job t w).trans ?_
      have hi := ih (pre ++ [⟨job,.handedIn⟩])
        (arrivals ++ [(job,.ended (t.run services w).1)]) (t.run services w).2
      simp only [List.append_assoc,List.singleton_append] at hi
      exact hi

theorem finishWaiting_moves (pre slots : List Slot) (arrivals : List (Job × Arrival)) (w : World) :
    Moves plan services mayCancel (⟨pre ++ slots,arrivals⟩,w)
      (⟨pre ++ slots.map endWaiting,arrivals ++ (finishWaiting plan services slots w).1⟩,
        (finishWaiting plan services slots w).2) := by
  induction slots generalizing pre arrivals w with
  | nil =>
    simp only [List.map_nil,finishWaiting,List.append_nil]
    exact .refl
  | cons slot slots ih =>
    obtain ⟨job,standing⟩ := slot
    cases standing with
    | working t =>
      have hi := ih (pre ++ [⟨job,.working t⟩]) arrivals w
      simp only [List.append_assoc,List.singleton_append] at hi
      exact hi
    | handedIn =>
      have hi := ih (pre ++ [⟨job,.handedIn⟩]) arrivals w
      simp only [List.append_assoc,List.singleton_append] at hi
      exact hi
    | waiting =>
      cases hc : w.cancelled with
      | true =>
        have hm : Change plan services job .waiting w _ w := .skip hc
        refine .head (.task hm) ?_
        have hi := ih (pre ++ [⟨job,.handedIn⟩]) (arrivals ++ [(job,.skipped)]) w
        simp only [List.append_assoc,List.singleton_append] at hi
        simp only [finishWaiting,hc,↓reduceIte]
        exact hi
      | false =>
        have hm : Change plan services job .waiting w _ w := .start hc
        refine .head (.goes_on hm) ((run_moves pre slots arrivals job _ w).trans ?_)
        have hi := ih (pre ++ [⟨job,.handedIn⟩])
          (arrivals ++ [(job,.ended ((analyze plan job.index job.endpoint).run services w).1)])
          ((analyze plan job.index job.endpoint).run services w).2
        simp only [List.append_assoc,List.singleton_append] at hi
        simp only [finishWaiting,hc,Bool.false_eq_true,↓reduceIte]
        exact hi

theorem finishWaiting_endWorking (slots : List Slot) (w : World) :
    finishWaiting plan services (slots.map endWorking) w = finishWaiting plan services slots w := by
  induction slots generalizing w with
  | nil => rfl
  | cons slot slots ih =>
    obtain ⟨job,standing⟩ := slot
    cases standing <;> simp [endWorking,finishWaiting,ih]

/-- The pool in which all that is left has been carried out. -/
def finish (plan : Plan) (services : Services) (p : Pool) (w : World) : Pool × World :=
  let (working,w) := finishWorking services p.slots w
  let (waiting,w) := finishWaiting plan services p.slots w
  (⟨(p.slots.map endWorking).map endWaiting,p.arrivals ++ working ++ waiting⟩,w)

theorem finish_moves (p : Pool) (w : World) :
    Moves plan services mayCancel (p,w) (finish plan services p w) := by
  obtain ⟨slots,arrivals⟩ := p
  have hw : Moves plan services mayCancel (⟨[] ++ slots,arrivals⟩,w) _ :=
    finishWorking_moves [] slots arrivals w
  have hs : Moves plan services mayCancel (⟨[] ++ slots.map endWorking,_⟩,_) _ :=
    finishWaiting_moves [] (slots.map endWorking) (arrivals ++ (finishWorking services slots w).1)
      (finishWorking services slots w).2
  rw [finishWaiting_endWorking] at hs
  exact hw.trans hs

theorem finish_handedIn (p : Pool) (w : World) :
    ∀ slot ∈ (finish plan services p w).1.slots, slot.standing = .handedIn := by
  intro slot hm
  simp only [finish,List.map_map,List.mem_map] at hm
  obtain ⟨⟨job,standing⟩,_,rfl⟩ := hm
  cases standing <;> rfl

/-- A batch is carried out by moves, at the end of which all of its jobs are handed in. -/
theorem run_pool_moves (workers : Nat) (jobs : List Job) (turns : List Turn)
    (h : .cancel ∈ turns → mayCancel) (w : World) :
    ∃ p, Moves plan services mayCancel (ofJobs jobs,w)
        (p,(run plan services workers jobs turns w).2) ∧
      p.arrivals = (run plan services workers jobs turns w).1 ∧
      ∀ slot ∈ p.slots, slot.standing = .handedIn := by
  have ht : Moves plan services mayCancel (ofJobs jobs,w) _ :=
    takeTurns_moves workers turns h (ofJobs jobs) w
  exact ⟨_,ht.trans (finish_moves _ _),rfl,finish_handedIn _ _⟩

/-- A batch passes through where it stands between any two of its turns. -/
theorem moves_between (workers : Nat) (turns rest : List Turn)
    (h : .cancel ∈ turns ++ rest → mayCancel) (p : Pool) (w : World) :
    let m := takeTurns plan services workers p w turns
    let s := takeTurns plan services workers p w (turns ++ rest)
    Moves plan services mayCancel (p,w) m ∧
      Moves plan services mayCancel m (finish plan services s.1 s.2) := by
  intro m s
  have hs : s = takeTurns plan services workers m.1 m.2 rest := List.foldl_append
  refine ⟨takeTurns_moves workers turns (fun hc => h (List.mem_append_left rest hc)) p w,?_⟩
  have hrest : Moves plan services mayCancel m s :=
    hs ▸ takeTurns_moves workers rest (fun hc => h (List.mem_append_right turns hc)) m.1 m.2
  exact hrest.trans (finish_moves s.1 s.2)

end EndpointAudit.Analysis.Pool
