import EndpointAudit.CommandLine
import EndpointAudit.Graph
import EndpointAudit.Prompt.Builtin
import EndpointAudit.Settings.File

namespace EndpointAudit

structure Settings where
  /-- The canonical path of the project. -/
  project : String
  sessionRoot : String
  workers : Nat
  cap : Nat
  rounds : Nat
  verbose : Bool
  templateDir : Option String
  templateName : String
  templateSection : Option String
  mode : Prompt.Mode
  selector : String
  temperature : Float32
  systemRole : String
  /-- Seconds until a request to the model is given up. -/
  timeout : Nat
  models : Model.Table
  logTokens : Bool
  java : Option String
  jar : Option String

namespace Settings

structure Draft where
  project : Option String := none
  file : Option String := none
  choices : Choices := {}

/-- The draft of a command line. A switch that is absent chooses nothing. -/
def Draft.ofInvocation (i : CommandLine.Invocation) : Draft :=
  { project := some i.project
    file := i.config
    choices := {
      sessionRoot := i.output
      workers := i.workers
      selector := i.model
      templateDir := i.templates
      verbose := if i.verbose then some true else none } }

def standardRole : String :=
  "You are a experienced programmer and good at understanding programs."

def resolveProject (t : FileTree) (project : String) : Except Error String := do
  let path ← (t.canonical project).mapError fun f =>
    .config ("Failed to resolve project path '" ++ project ++ "': " ++ f.message)
  if t.isDir path then .ok path
  else .error (.config ("Project path '" ++ project ++ "' is not a directory"))

/-- Settings from what was chosen, with standard values elsewhere. -/
def ofChoices (project : String) (c : Choices) (f : File) : Settings :=
  { project
    sessionRoot := c.sessionRoot.getD "logs"
    workers := c.workers.getD 4
    cap := c.cap.getD Graph.defaultCap
    rounds := c.rounds.getD 1
    verbose := c.verbose.getD false
    templateDir := c.templateDir
    templateName := c.templateName.getD Prompt.reviewName
    templateSection := c.templateSection
    mode := c.mode.getD .singlePass
    selector := c.selector.getD "qwen"
    temperature := c.temperature.getD 0
    systemRole := c.systemRole.getD standardRole
    timeout := c.timeout.getD 120
    models := Model.Table.standard.upsertAll f.models
    logTokens := f.logTokens.getD false
    java := c.java
    jar := c.jar }

/-- What is wrong with settings; the first fault counts. -/
def fault? (s : Settings) : Option Error :=
  if s.workers = 0 then some (.config "workers must be at least 1")
  else if s.cap = 0 then some (.config "max_iterations must be at least 1")
  else if !(0 ≤ s.temperature && s.temperature ≤ 2) then
    some (.config ("temperature must be between 0 and 2, got " ++ temperatureText s.temperature))
  else if s.timeout = 0 then some (.config "LLM timeout must be greater than zero")
  else if Text.isBlankText s.selector then some (.config "model selector is empty")
  else if (Model.Table.select? s.models s.selector).isNone then some (.unknownModel s.selector)
  else none

def check (s : Settings) : Except Error Settings :=
  s.fault?.elim (.ok s) .error

/-- The settings as a document, in the groups of the configuration file. -/
def toJson (s : Settings) : Json :=
  .object [("project_path",.text s.project),("session_root",.text s.sessionRoot),
    ("workers",.ofNat s.workers),("max_iterations",.ofNat s.cap),
    ("refinement_rounds",.ofNat s.rounds),("verbose",.bool s.verbose),
    ("templates",.object [("dir",.ofOption .text s.templateDir),
      ("analysis",.text s.templateName),("section",.ofOption .text s.templateSection),
      ("substitution",.text s.mode.name)]),
    ("llm",.object [("model",.text s.selector),
      ("temperature",.text (temperatureText s.temperature)),
      ("system_role",.text s.systemRole),("timeout_secs",.ofNat s.timeout),
      ("log_token_estimates",.bool s.logTokens),
      ("models",.array (s.models.map Model.Entry.toJson))]),
    ("parser",.object [("java_path",.ofOption .text s.java),
      ("jar_path",.ofOption .text s.jar)])]

/-- Makes settings from a draft and its configuration file. -/
def build (t : FileTree) (d : Draft) : Except Error Settings := do
  let file ← d.file.elim (.ok {}) (File.load t)
  match d.project with
  | none => .error (.config "project path is required")
  | some project =>
    let path ← resolveProject t project
    (ofChoices path (d.choices.orElse file.choices) file).check

end Settings

end EndpointAudit
