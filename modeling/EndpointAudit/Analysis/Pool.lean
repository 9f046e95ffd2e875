import EndpointAudit.Analysis.Endpoint

namespace EndpointAudit.Analysis

structure Job where
  index : Nat
  endpoint : Endpoint

inductive Standing
  | waiting
  | working (t : Task Finding)
  | handedIn

/-- What arrives from a task; one that did not start because of a cancellation is skipped. -/
inductive Arrival
  | ended (e : Ending Finding)
  | skipped

structure Slot where
  job : Job
  standing : Standing

structure Pool where
  slots : List Slot
  arrivals : List (Job × Arrival) := []

namespace Pool

def ofJobs (jobs : List Job) : Pool :=
  { slots := jobs.map fun job => ⟨job,.waiting⟩ }

def Standing.isWorking : Standing → Bool
  | .working _ => true
  | _ => false

def busy (p : Pool) : Nat :=
  p.slots.countP fun slot => Standing.isWorking slot.standing

def setStanding (p : Pool) (place : Nat) (standing : Standing) : Pool :=
  { p with slots := p.slots.modify place fun slot => { slot with standing } }

def handIn (p : Pool) (place : Nat) (job : Job) (a : Arrival) : Pool :=
  { p.setStanding place .handedIn with arrivals := p.arrivals ++ [(job,a)] }

/-- The turn of the task at a place. Handing in is a step of its own. -/
def advance (plan : Plan) (services : Services) (workers place : Nat) (p : Pool) (w : World) :
    Pool × World :=
  match p.slots[place]? with
  | none => (p,w)
  | some slot =>
    match slot.standing with
    | .handedIn => (p,w)
    | .waiting =>
      if workers ≤ p.busy then (p,w)
      else if w.cancelled then (p.handIn place slot.job .skipped,w)
      else
        (p.setStanding place (.working (analyze plan slot.job.index slot.job.endpoint)),w)
    | .working t =>
      match t.ending? with
      | some ending => (p.handIn place slot.job (.ended ending),w)
      | none =>
        let (t,w) := t.step services w
        (p.setStanding place (.working t),w)

def takeTurn (plan : Plan) (services : Services) (workers : Nat) (p : Pool) (w : World) :
    Turn → Pool × World
  | .cancel => (p,{ w with cancelled := true })
  | .task place => advance plan services workers place p w

def takeTurns (plan : Plan) (services : Services) (workers : Nat) (p : Pool) (w : World)
    (turns : List Turn) : Pool × World :=
  turns.foldl (fun (p,w) turn => takeTurn plan services workers p w turn) (p,w)

/-- Ends the tasks that have started, one after the other. -/
def finishWorking (services : Services) : List Slot → World → List (Job × Arrival) × World
  | [],w => ([],w)
  | slot :: slots,w =>
    match slot.standing with
    | .working t =>
      let (ending,w) := t.run services w
      let (arrivals,w) := finishWorking services slots w
      ((slot.job,.ended ending) :: arrivals,w)
    | _ => finishWorking services slots w

def finishWaiting (plan : Plan) (services : Services) :
    List Slot → World → List (Job × Arrival) × World
  | [],w => ([],w)
  | slot :: slots,w =>
    match slot.standing with
    | .waiting =>
      if w.cancelled then
        let (arrivals,w) := finishWaiting plan services slots w
        ((slot.job,.skipped) :: arrivals,w)
      else
        let (ending,w) := (analyze plan slot.job.index slot.job.endpoint).run services w
        let (arrivals,w) := finishWaiting plan services slots w
        ((slot.job,.ended ending) :: arrivals,w)
    | _ => finishWaiting plan services slots w

/-- Carries out a batch: the given turns first, and then all that is left. -/
def run (plan : Plan) (services : Services) (workers : Nat) (jobs : List Job)
    (turns : List Turn) (w : World) : List (Job × Arrival) × World :=
  let (p,w) := takeTurns plan services workers (ofJobs jobs) w turns
  let (working,w) := finishWorking services p.slots w
  let (waiting,w) := finishWaiting plan services p.slots w
  (p.arrivals ++ working ++ waiting,w)

end Pool

def Arrival.finding? : Arrival → Option Finding
  | .ended (.done f) => some f
  | _ => none

def Arrival.isFailure : Arrival → Bool
  | .ended (.done _) => false
  | .ended _ => true
  | .skipped => false

end EndpointAudit.Analysis
