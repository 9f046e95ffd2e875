import EndpointAudit.Analysis.Pool
import EndpointAudit.Stages.Extraction

namespace EndpointAudit.Stages

open EndpointAudit.Analysis

def analysisName : String := "context_extension"

structure PromptChoice where
  library : Prompt.Library
  name : String
  sectionKey : Option String
  mode : Prompt.Mode

def PromptChoice.load (c : PromptChoice) (t : FileTree) : Except Error Prompt.Template := do
  let template ← c.library.template t c.name c.sectionKey
  return { template with mode := c.mode }

structure ModelChoice where
  selector : String
  temperature : Float32
  systemRole : String

structure AnalysisSetup where
  toolchains : List Toolchain
  prompt : PromptChoice
  generator : Model.Generator
  model : ModelChoice
  workers : Nat

structure Batch where
  plan : Plan
  services : Services
  jobs : List Job

def jobsOf (c : Context) : List Job :=
  c.pending.filterMap fun i => c.endpoints[i]?.map fun e => ⟨i,e⟩

def AnalysisSetup.batch (setup : AnalysisSetup) (c : Context) (project : Project)
    (toolchain : Toolchain) (template : Prompt.Template) : Batch :=
  { plan := {
      projectKind := project.kind
      template
      selector := setup.model.selector
      temperature := setup.model.temperature
      systemRole := setup.model.systemRole }
    services := {
      root := project.root
      lookup := toolchain.lookup
      generator := setup.generator
      callDir := c.session.map Session.callDir }
    jobs := jobsOf c }

def prepareAnalysis (setup : AnalysisSetup) (c : Context) : Audit Batch := do
  let project ← match c.project with
    | some p => pure p
    | none => throw noProject
  MonadExcept.ofExcept (Endpoint.validateAll c.endpoints)
  let toolchain ← MonadExcept.ofExcept (Toolchain.select setup.toolchains project.kind)
  let template ← World.readFiles setup.prompt.load
  return setup.batch c project toolchain template

/-- Findings in the order of their arrival. A batch without jobs starts no workers and does not show any
progress. -/
def executeAnalysis (workers : Nat) (b : Batch) : Audit (List Finding) := do
  if b.jobs.isEmpty then return []
  World.startWorkers
  World.report (.start b.jobs.length "Analyzing APIs")
  let turns ← World.takeTurns
  let arrivals ← runPool turns
  World.reportAll (arrivals.map fun (job,_) => .advance job.endpoint.label)
  let findings := arrivals.filterMap fun (_,a) => a.finding?
  let failures := arrivals.countP fun (_,a) => a.isFailure
  World.report
    (.finish (toString findings.length ++ " analyzed, " ++ toString failures ++ " failed"))
  return findings
where
  runPool (turns : List Turn) : StateM World (List (Job × Arrival)) := fun w =>
    Pool.run b.plan b.services workers b.jobs turns w

def finalizeAnalysis (c : Context) (findings : List Finding) : Patch :=
  { findings, tally := some (Completion.tally ((c.findings ++ findings).map Finding.text)) }

def analysis (setup : AnalysisSetup) : Stage World :=
  .ofPhases analysisName (prepareAnalysis setup) (executeAnalysis setup.workers)
    (fun c _ findings => return (finalizeAnalysis c findings,defaultLabel))

end EndpointAudit.Stages
