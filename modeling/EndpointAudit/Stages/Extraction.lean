import EndpointAudit.Toolchain
import EndpointAudit.World

namespace EndpointAudit.Stages

def extractionName : String := "api_extraction"

structure ExtractionJob where
  toolchain : Toolchain
  root : String
  target : String

def noProject : Error := .config "no project info in context"

def prepareExtraction (toolchains : List Toolchain) (c : Context) : Audit ExtractionJob := do
  let project ← match c.project with
    | some p => pure p
    | none => throw noProject
  let session ← match c.session with
    | some s => pure s
    | none => throw (.config "API extraction needs a session directory")
  let toolchain ← MonadExcept.ofExcept (Toolchain.select toolchains project.kind)
  World.readFiles toolchain.available
  return { toolchain, root := project.root, target := session.dir }

def executeExtraction (job : ExtractionJob) : Audit (List Endpoint) := do
  let _ ← useTool (job.toolchain.extract job.root job.target)
  World.readFiles fun t => loadEndpoints t job.target
where
  /-- Runs a tool, which changes the files and may cancel the run even when it fails. -/
  useTool (tool : FileTree → ToolAnswer ExtractionRun) : Audit ExtractionRun := fun w =>
    let r := tool w.files
    (r.answer,{ w with files := r.files, cancelled := w.cancelled || r.stops })

def extraction (toolchains : List Toolchain) : Stage World :=
  .ofPhases extractionName (prepareExtraction toolchains) executeExtraction
    (fun _ _ endpoints => return ({ endpoints := some endpoints },defaultLabel))

end EndpointAudit.Stages
