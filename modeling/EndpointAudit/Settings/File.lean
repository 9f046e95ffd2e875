import EndpointAudit.Decimal.Layout
import EndpointAudit.Model.Table
import EndpointAudit.Prompt.Substitution

namespace EndpointAudit.Settings

def temperatureLayout : Decimal.Layout :=
  { positional := none, pointZero := false
    nan := "NaN", infinity := "inf", negativeInfinity := "-inf" }

def temperatureText (x : Float32) : String :=
  temperatureLayout.text (.ofFloat32 x)

structure Choices where
  sessionRoot : Option String := none
  workers : Option Nat := none
  cap : Option Nat := none
  rounds : Option Nat := none
  verbose : Option Bool := none
  templateDir : Option String := none
  templateName : Option String := none
  templateSection : Option String := none
  mode : Option Prompt.Mode := none
  selector : Option String := none
  temperature : Option Float32 := none
  systemRole : Option String := none
  timeout : Option Nat := none
  java : Option String := none
  jar : Option String := none

/-- The first choice for each setting, or else the second. -/
def Choices.orElse (a b : Choices) : Choices :=
  { sessionRoot := a.sessionRoot.or b.sessionRoot
    workers := a.workers.or b.workers
    cap := a.cap.or b.cap
    rounds := a.rounds.or b.rounds
    verbose := a.verbose.or b.verbose
    templateDir := a.templateDir.or b.templateDir
    templateName := a.templateName.or b.templateName
    templateSection := a.templateSection.or b.templateSection
    mode := a.mode.or b.mode
    selector := a.selector.or b.selector
    temperature := a.temperature.or b.temperature
    systemRole := a.systemRole.or b.systemRole
    timeout := a.timeout.or b.timeout
    java := a.java.or b.java
    jar := a.jar.or b.jar }

structure File where
  choices : Choices := {}
  logTokens : Option Bool := none
  /-- Put into the table of models, replacing entries of the same name. -/
  models : Model.Table := []

namespace File

open Json

structure TemplatesPart where
  dir : Option String := none
  name : Option String := none
  sectionKey : Option String := none
  mode : Option Prompt.Mode := none

structure ModelPart where
  selector : Option String := none
  temperature : Option Float32 := none
  systemRole : Option String := none
  timeout : Option Nat := none
  logTokens : Option Bool := none
  models : Model.Table := []

structure ToolPart where
  java : Option String := none
  jar : Option String := none

def templatesRecord : Record TemplatesPart :=
  Record.constant TemplatesPart.mk
    |>.omittable "dir" Decoder.text
    |>.omittable "analysis" Decoder.text
    |>.omittable "section" Decoder.text
    |>.omittable "substitution" Prompt.Mode.decoder

def modelRecord : Record ModelPart :=
  Record.constant ModelPart.mk
    |>.omittable "model" Decoder.text
    |>.omittable "temperature" Decoder.single
    |>.omittable "system_role" Decoder.text
    |>.omittable "timeout_secs" Decoder.word64
    |>.omittable "log_token_estimates" Decoder.boolean
    |>.defaulting "models" (Decoder.list Model.Entry.record.decoder) []

def toolRecord : Record ToolPart :=
  Record.constant ToolPart.mk
    |>.omittable "java_path" Decoder.text
    |>.omittable "jar_path" Decoder.text

def ofParts (sessionRoot : Option String) (workers cap rounds : Option Nat) (verbose : Option Bool)
    (templates : TemplatesPart) (model : ModelPart) (tool : ToolPart) : File :=
  { choices := {
      sessionRoot, workers, cap, rounds, verbose
      templateDir := templates.dir
      templateName := templates.name
      templateSection := templates.sectionKey
      mode := templates.mode
      selector := model.selector
      temperature := model.temperature
      systemRole := model.systemRole
      timeout := model.timeout
      java := tool.java
      jar := tool.jar }
    logTokens := model.logTokens
    models := model.models }

def record : Record File :=
  Record.constant ofParts
    |>.omittable "output" Decoder.text
    |>.omittable "workers" Decoder.word64
    |>.omittable "max_iterations" Decoder.word64
    |>.omittable "refinement_rounds" Decoder.word32
    |>.omittable "verbose" Decoder.boolean
    |>.defaulting "templates" templatesRecord.strictDecoder {}
    |>.defaulting "llm" modelRecord.strictDecoder {}
    |>.defaulting "parser" toolRecord.strictDecoder {}

/-- The file as a document; what it leaves out is null. -/
def toJson (f : File) : Json :=
  let c := f.choices
  .object [("output",.ofOption .text c.sessionRoot),("workers",.ofOption .ofNat c.workers),
    ("max_iterations",.ofOption .ofNat c.cap),("refinement_rounds",.ofOption .ofNat c.rounds),
    ("verbose",.ofOption .bool c.verbose),
    ("templates",.object [("dir",.ofOption .text c.templateDir),
      ("analysis",.ofOption .text c.templateName),
      ("section",.ofOption .text c.templateSection),
      ("substitution",.ofOption .text (c.mode.map Prompt.Mode.name))]),
    ("llm",.object [("model",.ofOption .text c.selector),
      ("temperature",.ofOption (fun x => .text (temperatureText x)) c.temperature),
      ("system_role",.ofOption .text c.systemRole),("timeout_secs",.ofOption .ofNat c.timeout),
      ("log_token_estimates",.ofOption .bool f.logTokens),
      ("models",.array (f.models.map Model.Entry.toJson))]),
    ("parser",.object [("java_path",.ofOption .text c.java),
      ("jar_path",.ofOption .text c.jar)])]

def parse (text : String) : Except Fault File :=
  decode record.strictDecoder text

def load (t : FileTree) (path : String) : Except Error File := do
  let text ← (t.readText path).mapError (.io path)
  (parse text).mapError (.json ("config file " ++ path))

end File

end EndpointAudit.Settings
