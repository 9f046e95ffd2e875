import EndpointAudit.Finding
import EndpointAudit.Project
import EndpointAudit.Session

namespace EndpointAudit

structure Context where
  project : Option Project := none
  endpoints : List Endpoint := []
  /-- In ascending order of their indices, at most one for each endpoint. -/
  findings : List Finding := []
  tally : Option Tally := none
  report : Option Report := none
  /-- How often the analysis was entered again for missing findings. -/
  round : Nat := 0
  session : Option Session := none

structure Patch where
  project : Option Project := none
  endpoints : Option (List Endpoint) := none
  findings : List Finding := []
  tally : Option Tally := none
  report : Option Report := none
  round : Option Nat := none

namespace Context

def pending (c : Context) : List Nat :=
  (List.range c.endpoints.length).filter fun i => !(c.findings.map Finding.index).contains i

/-- Puts a finding in order; behind one with the same index it is dropped. -/
def insertFinding (f : Finding) : List Finding → List Finding
  | [] => [f]
  | g :: gs =>
    if f.index < g.index then f :: g :: gs
    else if f.index = g.index then g :: gs
    else g :: insertFinding f gs

/-- Findings in order of their indices, the first one for each index. -/
def mergeFindings (old new : List Finding) : List Finding :=
  (old ++ new).foldl (fun fs f => insertFinding f fs) []

/-- Merges a patch. A new list of endpoints drops the findings of the old one. -/
def apply (c : Context) (p : Patch) : Context :=
  let kept := if p.endpoints.isSome then [] else c.findings
  { project := p.project.or c.project
    endpoints := p.endpoints.getD c.endpoints
    findings := if p.findings.isEmpty then kept else mergeFindings kept p.findings
    tally := p.tally.or (if p.endpoints.isSome then none else c.tally)
    report := p.report.or c.report
    round := p.round.getD c.round
    session := c.session }

def toJson (c : Context) : Json :=
  .object [("project_info",.ofOption Project.toJson c.project),
    ("apis",.array (c.endpoints.map Endpoint.toJson)),
    ("analysis_results",.array (c.findings.map Finding.toJson)),
    ("analysis_stats",.ofOption Tally.toJson c.tally),
    ("final_summary",.ofOption Report.toJson c.report),
    ("refinement_round",.ofNat c.round),
    ("session",.ofOption Session.toJson c.session)]

end Context

end EndpointAudit
