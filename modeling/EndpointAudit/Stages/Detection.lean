import EndpointAudit.Detection
import EndpointAudit.World

namespace EndpointAudit.Stages

def detectionName : String := "project_analysis"

def detectionFile : String := "framework_analysis.json"

def detection : Stage World :=
  .ofPhases detectionName
    (fun c =>
      match c.project with
      | some p => pure p.root
      | none => throw (.config "no project path in context"))
    (fun root => World.readFiles fun t => .ok (Detection.project t root))
    (fun c _ project => do
      match c.session with
      | some s =>
        let _ ← World.withFiles fun t => s.writeJson t detectionFile project.toJson
      | none => pure ()
      return ({ project := some project },defaultLabel))

end EndpointAudit.Stages
