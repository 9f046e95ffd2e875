import EndpointAudit.JavaTool
import EndpointAudit.Model.Chat
import EndpointAudit.Settings.Build
import EndpointAudit.Stages.Analysis
import EndpointAudit.Stages.Detection
import EndpointAudit.Stages.Summary

namespace EndpointAudit

/-- What an audit is made with: its settings, the models that it asks, and the toolchains for the
languages it knows. -/
structure Pipeline where
  settings : Settings
  models : Model.Backend
  toolchains : List Toolchain

namespace Pipeline

def standardToolchains (s : Settings) (machine : Machine) (env : Environment) : List Toolchain :=
  let tool : JavaTool := { java := s.java, jar := s.jar }
  [(tool.orEnvironment env).toolchain machine env]

/-- The models that are reached over HTTP. Without a client for it none can be asked. -/
def standardModels (s : Settings) (clientFault : Option String) (server : Http.Server)
    (env : Environment) : Model.Backend :=
  let models := Model.Chat.backend s.models env server
  match clientFault with
  | none => models
  | some reason =>
    { models with serves := fun _ => .error (.config ("cannot build HTTP client: " ++ reason)) }

def analysisSetup (p : Pipeline) : Stages.AnalysisSetup :=
  { toolchains := p.toolchains
    prompt := {
      library := { dir := p.settings.templateDir }
      name := p.settings.templateName
      sectionKey := p.settings.templateSection
      mode := p.settings.mode }
    generator := p.models.answer
    model := {
      selector := p.settings.selector
      temperature := p.settings.temperature
      systemRole := p.settings.systemRole }
    workers := p.settings.workers }

def stages (p : Pipeline) : List (Stage World) :=
  [Stages.detection,Stages.extraction p.toolchains,Stages.analysis p.analysisSetup,
    Stages.summary p.settings.rounds]

/-- One stage after the other, and back to the analysis while more is needed. -/
def edges : List Edge :=
  [{ source := Stages.detectionName, target := Stages.extractionName },
    { source := Stages.extractionName, target := Stages.analysisName },
    { source := Stages.analysisName, target := Stages.summaryName },
    { source := Stages.summaryName, label := Stages.moreLabel, target := Stages.analysisName }]

/-- The graph of the stages, if the model can be asked. -/
def graph (p : Pipeline) : Except Error (Graph World) := do
  p.models.serves p.settings.selector
  Graph.build p.stages edges (some Stages.detectionName) p.settings.cap

def snapshotFile (sequence : Nat) (stage : String) : String :=
  "data/node_" ++ Text.padded 3 sequence ++ "_" ++ stage ++ ".json"

def snapshot : Observer World := fun sequence stage _ c =>
  match c.session with
  | none => pure ()
  | some s => do
    let _ ← World.withFiles fun t => s.writeJson t (snapshotFile sequence stage) c.toJson

/-- Makes a session for a command and the context of a run that starts in it. -/
def start (settings : Settings) (command : String) : Audit Context := do
  let clock := (← get).clock
  let session ← World.withFiles fun t => Session.create t settings.sessionRoot clock
  let _ ← World.withFiles fun t => do
    return ((),← session.writeInfo t clock settings.project command settings.selector)
  return { project := some (.atRoot settings.project), session := some session }

/-- Runs the graph on a context. A pipeline without a graph leaves the context as it is. -/
def execute (p : Pipeline) (c : Context) : StateM World Graph.Ended :=
  match p.graph with
  | .error e => return ⟨.error e,c⟩
  | .ok g => g.run World.poll snapshot c

structure Finished where
  label : String
  context : Context

/-- A whole run for a command, in a session of its own. -/
def run (p : Pipeline) (command : String) : Audit Finished := do
  let c ← start p.settings command
  let ended ← liftM (p.execute c)
  match ended.outcome with
  | .ok label => return ⟨label,ended.context⟩
  | .error e => throw e

end Pipeline

end EndpointAudit
