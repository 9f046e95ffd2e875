import EndpointAudit.Context
import EndpointAudit.Text.Quoted

namespace EndpointAudit

/-- An action of the outside world `σ` that may fail; what it did to the world stays done. -/
abbrev Act (σ α : Type) := ExceptT Error (StateM σ) α

structure Stage (σ : Type) where
  name : String
  run : Context → Act σ (Patch × String)

/-- A stage that works in three phases, of which only the first and the last see the context. -/
def Stage.ofPhases {Prepared Output : Type} (name : String) (prepare : Context → Act σ Prepared)
    (execute : Prepared → Act σ Output)
    (finalize : Context → Prepared → Output → Act σ (Patch × String)) : Stage σ where
  name
  run c := do
    let prepared ← prepare c
    let output ← execute prepared
    finalize c prepared output

/-- The label of stages that only ever go on along one edge. -/
def defaultLabel : String := "default"

structure Edge where
  source : String
  label : String := defaultLabel
  target : String
deriving DecidableEq, Repr

/-- A checked graph: every stage it refers to is one of its own. -/
structure Graph (σ : Type) where
  stages : List (Stage σ)
  start : Fin stages.length
  transitions : List ((Fin stages.length × String) × Fin stages.length)
  cap : Nat

/-- Told of each stage after its patch is merged: its number in the run, its name and its label. -/
abbrev Observer (σ : Type) := Nat → String → String → Context → Act σ Unit

def Observer.silent : Observer σ := fun _ _ _ _ => pure ()

namespace Graph

def defaultCap : Nat := 32

def indexOf? (stages : List (Stage σ)) (name : String) : Option (Fin stages.length) :=
  stages.findFinIdx? (·.name == name)

def lookup (stages : List (Stage σ)) (name : String) : Except Error (Fin stages.length) :=
  (indexOf? stages name).elim (.error (.graph ("unknown stage '" ++ name ++ "'"))) .ok

def repeated? (seen : List String) : List String → Option String
  | [] => none
  | n :: ns => if seen.contains n then some n else repeated? (n :: seen) ns

/-- Adds edges one after the other. An edge may be given twice, but not with two targets. -/
def addEdges (stages : List (Stage σ))
    (table : List ((Fin stages.length × String) × Fin stages.length)) :
    List Edge → Except Error (List ((Fin stages.length × String) × Fin stages.length))
  | [] => .ok table
  | e :: es => do
    let source ← lookup stages e.source
    let target ← lookup stages e.target
    match table.lookup (source,e.label) with
    | none => addEdges stages (((source,e.label),target) :: table) es
    | some t =>
      if t = target then addEdges stages table es
      else .error (.graph ("stage '" ++ e.source ++ "' has conflicting edges for action '" ++
        e.label ++ "'"))

/-- Checks a graph: names, start, edges and cap, in this order. -/
def build (stages : List (Stage σ)) (edges : List Edge) (start : Option String)
    (cap : Nat := defaultCap) : Except Error (Graph σ) := do
  match repeated? [] (stages.map Stage.name) with
  | some n => .error (.graph ("duplicate stage name '" ++ n ++ "'"))
  | none => .ok ()
  match start with
  | none => .error (.graph "no start stage set")
  | some name =>
    let first ← lookup stages name
    let transitions ← addEdges stages [] edges
    if cap = 0 then .error (.graph "max_iterations must be at least 1")
    else .ok { stages, start := first, transitions, cap }

def stageAt (g : Graph σ) (s : Fin g.stages.length) : Stage σ :=
  g.stages[s]

def next? (g : Graph σ) (current : Fin g.stages.length) (label : String) :
    Option (Fin g.stages.length) :=
  g.transitions.lookup (current,label)

/-- How a run ended: the label of the last action or a failure, and the context as it was then. -/
structure Ended where
  outcome : Except Error String
  context : Context

/-- Goes on at a stage while `left` more executions are allowed. `cancelled` asks whether the run
shall stop. -/
def runFrom (g : Graph σ) (cancelled : StateM σ Bool) (observe : Observer σ) :
    Nat → Fin g.stages.length → Context → StateM σ Ended
  | left,current,c => do
    if ← cancelled then return ⟨.error .interrupted,c⟩
    match left with
    | 0 => return ⟨.error (.iterationLimit g.cap),c⟩
    | left + 1 =>
      let stage := g.stageAt current
      match ← (stage.run c).run with
      | .error e => return ⟨.error e,c⟩
      | .ok (patch,label) =>
        let c := c.apply patch
        match ← (observe (g.cap - left) stage.name label c).run with
        | .error e => return ⟨.error e,c⟩
        | .ok () =>
          match g.next? current label with
          | none => return ⟨.ok label,c⟩
          | some next => runFrom g cancelled observe left next c

def run (g : Graph σ) (cancelled : StateM σ Bool) (observe : Observer σ) (c : Context) :
    StateM σ Ended :=
  g.runFrom cancelled observe g.cap g.start c

def describe (g : Graph σ) : String :=
  "Flow \x7b stages: " ++ Text.quotedList (g.stages.map Stage.name) ++ ", start: " ++
    Text.quoted (g.stageAt g.start).name ++ ", max_iterations: " ++ toString g.cap ++ " \x7d"

end Graph

end EndpointAudit
