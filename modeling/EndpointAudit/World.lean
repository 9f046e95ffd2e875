import EndpointAudit.Graph
import EndpointAudit.Model.Generation

namespace EndpointAudit

/-- A turn of the analysis: the task at a place in the batch does one step, or the user cancels. -/
inductive Turn
  | task (place : Nat)
  | cancel
deriving DecidableEq, Repr

inductive Progress
  | start (total : Nat) (label : String)
  | advance (item : String)
  | finish (summary : String)
deriving DecidableEq, Repr

def Progress.toText : Progress → String
  | .start total label => "start " ++ toString total ++ " " ++ label
  | .advance item => "advance " ++ item
  | .finish summary => "finish " ++ summary

structure World where
  files : FileTree
  clock : Clock
  cancelled : Bool := false
  calls : List Model.Call := []
  logged : Nat := 0
  progress : List Progress := []
  /-- For each coming batch, the turns its workers take. What they leave undone is done in order. -/
  turns : List (List Turn) := []
  /-- For each coming moment between two stages, whether the user cancels by then. -/
  signals : List Bool := []
  /-- For each coming batch, why its workers cannot be started, if they cannot. -/
  refusals : List (Option String) := []

abbrev Audit (α : Type) := Act World α

namespace World

/-- Whether the run shall stop, asked between two stages. -/
def poll : StateM World Bool := fun w =>
  match w.signals with
  | [] => (w.cancelled,w)
  | signal :: rest =>
    let cancelled := w.cancelled || signal
    (cancelled,{ w with cancelled, signals := rest })

/-- Uses the files and keeps the changed tree. -/
def withFiles (f : FileTree → Except Error (α × FileTree)) : Audit α := fun w =>
  match f w.files with
  | .ok (a,files) => (.ok a,{ w with files })
  | .error e => (.error e,w)

def readFiles (f : FileTree → Except Error α) : Audit α := fun w =>
  (f w.files,w)

def report (p : Progress) : StateM World Unit :=
  modify fun w => { w with progress := w.progress ++ [p] }

def reportAll (ps : List Progress) : StateM World Unit :=
  modify fun w => { w with progress := w.progress ++ ps }

def takeTurns : StateM World (List Turn) := fun w =>
  match w.turns with
  | [] => ([],w)
  | turns :: rest => (turns,{ w with turns := rest })

/-- Starts the workers of the next batch. -/
def startWorkers : Audit Unit := fun w =>
  match w.refusals.head?.join with
  | none => (.ok (),{ w with refusals := w.refusals.tail })
  | some reason =>
    (.error (.config ("cannot start worker pool: " ++ reason)),{ w with refusals := w.refusals.tail })

end World

end EndpointAudit
