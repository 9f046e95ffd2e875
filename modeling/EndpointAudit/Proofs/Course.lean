import EndpointAudit.Proofs.Acts

namespace EndpointAudit.Graph

variable {σ : Type} {g : Graph σ} {cancelled : StateM σ Bool} {observe : Observer σ}

/-- One execution of a stage in a run, as it begins. -/
structure Visit (g : Graph σ) where
  number : Nat
  stage : Fin g.stages.length
  context : Context
  world : σ

/-- What a visit comes to. The patch is merged before the observer is told. -/
inductive Upshot
  | failed (e : Error)
  | unheard (patch : Patch) (label : String) (e : Error)
  | completed (patch : Patch) (label : String)

/-- The patch and the label of a stage that did not fail. -/
def Upshot.merged? : Upshot → Option (Patch × String)
  | .failed _ => none
  | .unheard patch label _ => some (patch,label)
  | .completed patch label => some (patch,label)

/-- What the observer is told. -/
structure Note where
  number : Nat
  stage : String
  label : String
  context : Context

namespace Visit

def name (v : Visit g) : String :=
  (g.stageAt v.stage).name

def upshot (observe : Observer σ) (v : Visit g) : Upshot × σ :=
  match ((g.stageAt v.stage).run v.context).run.run v.world with
  | (.error e,w) => (.failed e,w)
  | (.ok (patch,label),w) =>
    match (observe v.number v.name label (v.context.apply patch)).run.run w with
    | (.error e,w) => (.unheard patch label e,w)
    | (.ok (),w) => (.completed patch label,w)

/-- A patch is merged whenever the stage returns one, whatever the observer says to it. -/
theorem merged?_eq (observe : Observer σ) (v : Visit g) :
    (v.upshot observe).1.merged? =
      (((g.stageAt v.stage).run v.context).run.run v.world).1.toOption := by
  unfold upshot
  rcases ((g.stageAt v.stage).run v.context).run.run v.world with ⟨answer,w⟩
  cases answer with
  | error e => rfl
  | ok returned =>
    simp only
    rcases (observe _ _ _ _).run.run w with ⟨heard,w'⟩
    cases heard <;> rfl

def note? (observe : Observer σ) (v : Visit g) : Option Note :=
  (v.upshot observe).1.merged?.map fun (patch,label) =>
    ⟨v.number,v.name,label,v.context.apply patch⟩

end Visit

/-- Why a run stopped. -/
inductive Stop
  | cancelled
  | capped
  | failed (e : Error)
  | unheard (e : Error)
  | finished (label : String)

def Stop.outcome (cap : Nat) : Stop → Except Error String
  | .cancelled => .error .interrupted
  | .capped => .error (.iterationLimit cap)
  | .failed e => .error e
  | .unheard e => .error e
  | .finished label => .ok label

structure Course (g : Graph σ) where
  visits : List (Visit g)
  stop : Stop
  context : Context
  world : σ

namespace Course

def after (r : Course g) (v : Visit g) : Course g :=
  { r with visits := v :: r.visits }

def ended (r : Course g) : Ended :=
  ⟨r.stop.outcome g.cap,r.context⟩

/-- Everything that the observer is told, in this order. -/
def notes (observe : Observer σ) (r : Course g) : List Note :=
  r.visits.filterMap (Visit.note? observe)

end Course

def courseFrom (g : Graph σ) (cancelled : StateM σ Bool) (observe : Observer σ) :
    Nat → Fin g.stages.length → Context → σ → Course g
  | left,current,c,w =>
    match cancelled.run w with
    | (true,w) => ⟨[],.cancelled,c,w⟩
    | (false,w) =>
      match left with
      | 0 => ⟨[],.capped,c,w⟩
      | left + 1 =>
        let v : Visit g := ⟨g.cap - left,current,c,w⟩
        match v.upshot observe with
        | (.failed e,w) => ⟨[v],.failed e,c,w⟩
        | (.unheard patch _ e,w) => ⟨[v],.unheard e,c.apply patch,w⟩
        | (.completed patch label,w) =>
          match g.next? current label with
          | none => ⟨[v],.finished label,c.apply patch,w⟩
          | some next => (courseFrom g cancelled observe left next (c.apply patch) w).after v

/-- The course of a whole run. -/
def course (g : Graph σ) (cancelled : StateM σ Bool) (observe : Observer σ) (c : Context) (w : σ) :
    Course g :=
  g.courseFrom cancelled observe g.cap g.start c w

theorem runFrom_course (left : Nat) (current : Fin g.stages.length) (c : Context) (w : σ) :
    (g.runFrom cancelled observe left current c).run w =
      ((g.courseFrom cancelled observe left current c w).ended,
        (g.courseFrom cancelled observe left current c w).world) := by
  induction left generalizing current c w with
  | zero =>
    unfold runFrom courseFrom
    rw [StateM.run_seq]
    rcases cancelled.run w with ⟨stop,w₁⟩
    cases stop <;> rfl
  | succ left ih =>
    unfold runFrom courseFrom Visit.upshot Visit.name
    rw [StateM.run_seq]
    rcases cancelled.run w with ⟨stop,w₁⟩
    cases stop with
    | true => rfl
    | false =>
      simp only [Bool.false_eq_true,↓reduceIte]
      rw [StateM.run_seq]
      rcases ((g.stageAt current).run c).run.run w₁ with ⟨answer,w₂⟩
      cases answer with
      | error e => rfl
      | ok returned =>
        obtain ⟨patch,label⟩ := returned
        simp only
        rw [StateM.run_seq]
        rcases (observe _ _ _ _).run.run w₂ with ⟨heard,w₃⟩
        cases heard with
        | error e => rfl
        | ok u =>
          simp only
          cases g.next? current label with
          | none => rfl
          | some next => exact ih next (c.apply patch) w₃

/-- How a run goes on from a stage with so many executions left, one rule for each exit of a pass and
one for a pass that leads to the next stage. -/
inductive Runs (g : Graph σ) (cancelled : StateM σ Bool) (observe : Observer σ) :
    Nat → Fin g.stages.length → Context → σ → Course g → Prop
  | cancelled {left s c w w₁} (polled : cancelled.run w = (true,w₁)) :
    Runs g cancelled observe left s c w ⟨[],.cancelled,c,w₁⟩
  | capped {s c w w₁} (polled : cancelled.run w = (false,w₁)) :
    Runs g cancelled observe 0 s c w ⟨[],.capped,c,w₁⟩
  | failed {left s c w w₁ e w₂} (polled : cancelled.run w = (false,w₁))
    (visited : Visit.upshot observe ⟨g.cap - left,s,c,w₁⟩ = (.failed e,w₂)) :
    Runs g cancelled observe (left + 1) s c w ⟨[⟨g.cap - left,s,c,w₁⟩],.failed e,c,w₂⟩
  | unheard {left s c w w₁ patch label e w₂} (polled : cancelled.run w = (false,w₁))
    (visited : Visit.upshot observe ⟨g.cap - left,s,c,w₁⟩ = (.unheard patch label e,w₂)) :
    Runs g cancelled observe (left + 1) s c w
      ⟨[⟨g.cap - left,s,c,w₁⟩],.unheard e,c.apply patch,w₂⟩
  | finished {left s c w w₁ patch label w₂} (polled : cancelled.run w = (false,w₁))
    (visited : Visit.upshot observe ⟨g.cap - left,s,c,w₁⟩ = (.completed patch label,w₂))
    (last : g.next? s label = none) :
    Runs g cancelled observe (left + 1) s c w
      ⟨[⟨g.cap - left,s,c,w₁⟩],.finished label,c.apply patch,w₂⟩
  | onward {left s c w w₁ patch label w₂ next r} (polled : cancelled.run w = (false,w₁))
    (visited : Visit.upshot observe ⟨g.cap - left,s,c,w₁⟩ = (.completed patch label,w₂))
    (edge : g.next? s label = some next)
    (rest : Runs g cancelled observe left next (c.apply patch) w₂ r) :
    Runs g cancelled observe (left + 1) s c w (r.after ⟨g.cap - left,s,c,w₁⟩)

theorem courseFrom_runs (left : Nat) (s : Fin g.stages.length) (c : Context) (w : σ) :
    Runs g cancelled observe left s c w (g.courseFrom cancelled observe left s c w) := by
  induction left generalizing s c w with
  | zero =>
    unfold courseFrom
    rcases hp : cancelled.run w with ⟨stop,w₁⟩
    cases stop with
    | true => exact .cancelled hp
    | false => exact .capped hp
  | succ left ih =>
    unfold courseFrom
    rcases hp : cancelled.run w with ⟨stop,w₁⟩
    cases stop with
    | true => exact .cancelled hp
    | false =>
      simp only
      rcases hv : Visit.upshot observe ⟨g.cap - left,s,c,w₁⟩ with ⟨upshot,w₂⟩
      cases upshot with
      | failed e => exact .failed hp hv
      | unheard patch label e => exact .unheard hp hv
      | completed patch label =>
        simp only
        cases hn : g.next? s label with
        | none => exact .finished hp hv hn
        | some next => exact .onward hp hv hn (ih next (c.apply patch) w₂)

/-- The rules leave no choice. -/
theorem Runs.eq_courseFrom {left s c w r} (h : Runs g cancelled observe left s c w r) :
    r = g.courseFrom cancelled observe left s c w := by
  induction h with
  | cancelled polled | capped polled =>
    unfold courseFrom
    rw [polled]
  | failed polled visited | unheard polled visited =>
    unfold courseFrom
    simp only [polled,visited]
  | finished polled visited last =>
    unfold courseFrom
    simp only [polled,visited,last]
  | onward polled visited edge rest ih =>
    unfold courseFrom
    simp only [polled,visited,edge,ih]

theorem course_runs (c : Context) (w : σ) :
    Runs g cancelled observe g.cap g.start c w (g.course cancelled observe c w) :=
  courseFrom_runs g.cap g.start c w

theorem run_course (c : Context) (w : σ) :
    (g.run cancelled observe c).run w =
      ((g.course cancelled observe c w).ended,(g.course cancelled observe c w).world) :=
  runFrom_course g.cap g.start c w

end EndpointAudit.Graph
