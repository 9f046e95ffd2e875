import EndpointAudit.Completion
import EndpointAudit.Text.Case
import EndpointAudit.World

namespace EndpointAudit.Stages

def summaryName : String := "summary_generation"

def moreLabel : String := "needs_more_info"

def summaryFile : String := "summary.json"

structure SummaryInput where
  endpoints : List Endpoint
  findings : List Finding
  tally : Option Tally
  pending : Nat
  round : Nat
  session : Option Session

namespace SummaryInput

def ofContext (c : Context) : SummaryInput :=
  { endpoints := c.endpoints
    findings := c.findings
    tally := c.tally
    pending := c.pending.length
    round := c.round
    session := c.session }

/-- The method of an endpoint as it is counted: trimmed and in upper case. -/
def countedMethod (e : Endpoint) : String :=
  if Text.isBlankText e.method then "UNKNOWN" else Text.upper (Text.trim e.method)

/-- Adds one to the count of a name; names stay in ascending order. -/
def count (counts : List (String × Nat)) (name : String) : List (String × Nat) :=
  Json.insertMember name ((counts.lookup name).getD 0 + 1) counts

def methodCounts (endpoints : List Endpoint) : List (String × Nat) :=
  endpoints.foldl (fun counts e => count counts (countedMethod e)) []

def overview (i : SummaryInput) : String :=
  let methods := ", ".intercalate
    ((methodCounts i.endpoints).map fun (m,n) => m ++ "=" ++ toString n)
  let text := toString i.endpoints.length ++ " APIs found (" ++
    (if methods.isEmpty then "none" else methods) ++ "). " ++ toString i.findings.length ++
    " analyzed, " ++ toString i.pending ++ " without result."
  match i.tally.bind Tally.rate with
  | some rate =>
    text ++ " Success rate: " ++ Decimal.fixedText 2 (.ofFloat rate) ++ "%."
  | none => text

/-- What the completions recommend, each advice once, where it stands first. -/
def advice (findings : List Finding) : List String :=
  (findings.flatMap fun f =>
    ((Completion.object? f.text).map Completion.recommendationsOf).getD []).eraseDups

def pendingNote (pending : Nat) : List String :=
  if pending = 0 then []
  else [toString pending ++ " APIs have no analysis result; re-run the analysis for them"]

def report (i : SummaryInput) : Report :=
  { total := i.endpoints.length
    overview := overview i
    recommendations := advice i.findings ++ pendingNote i.pending
    findings := i.findings }

def goesOn (i : SummaryInput) (rounds : Nat) : Bool :=
  0 < i.pending && i.round < rounds

end SummaryInput

def finalizeSummary (rounds : Nat) (i : SummaryInput) (r : Report) : Audit (Patch × String) := do
  match i.session with
  | some s =>
    let _ ← World.withFiles fun t => s.writeJson t summaryFile r.toJson
  | none => pure ()
  if i.goesOn rounds then
    return ({ report := some r, round := some (i.round + 1) },moreLabel)
  else return ({ report := some r },defaultLabel)

def summary (rounds : Nat) : Stage World :=
  .ofPhases summaryName (fun c => return SummaryInput.ofContext c)
    (fun i => return i.report)
    (fun _ i r => finalizeSummary rounds i r)

end EndpointAudit.Stages
