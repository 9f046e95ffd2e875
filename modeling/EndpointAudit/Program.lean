import EndpointAudit.Pipeline

namespace EndpointAudit

namespace Program

def name : String := "wfg"

structure Surroundings where
  environment : Environment
  machine : Machine
  server : Http.Server
  /-- Why no client for HTTP can be built, if none can. -/
  clientFault : Option String := none
  /-- Why no handler for signals can be set, if none can. -/
  handlerFault : Option String := none

structure Outcome where
  code : Nat
  output : String := ""
  errorOutput : String := ""
deriving DecidableEq, Repr

def failureText (reason : String) : Outcome :=
  { code := 1, errorOutput := "Error: " ++ reason ++ "\n" }

def failure (e : Error) : Outcome :=
  failureText e.message

def versionText (command : Option CommandLine.Command) : String :=
  name ++ command.elim "" (fun c => "-" ++ c.name) ++ " " ++ version ++ "\n"

def helpText : String :=
  "Usage: " ++ name ++ " [OPTIONS] --project <PATH> [COMMAND]\n"

/-- A command line without anything to run. Help and the version are answers, all else is an
error. -/
def usageOutcome (u : CommandLine.Usage) : Outcome :=
  match u with
  | .help => { code := 0, output := helpText }
  | .version command => { code := 0, output := versionText command }
  | u => { code := 2, errorOutput := "error: " ++ u.errorLine?.getD "" ++ "\n" }

def unavailable (command : CommandLine.Command) : Outcome :=
  { code := 0
    output := name ++ ": the '" ++ command.name ++
      "' stage group is not available in this build.\n" }

/-- What the end of a run means to the user. -/
def endOutcome (dir : String) (ended : Graph.Ended) : Outcome :=
  match ended.outcome with
  | .ok _ =>
    let overview := ended.context.report.elim "" fun r => r.overview ++ "\n"
    { code := 0, output := overview ++ "SA analysis completed. Results in " ++ dir ++ "\n" }
  | .error .interrupted =>
    { code := 130
      errorOutput := "\nOperation cancelled. Partial results in " ++ dir ++ "\n" }
  | .error e => failure e

def detailedLog : String := "wfg_detailed.log"

/-- Creates the file for detailed logging, where it is wanted. -/
def openLog (s : Settings) (c : Context) : StateM World (Except IoFault Unit) := fun w =>
  match s.verbose,c.session with
  | true,some session =>
    match w.files.writeText (Path.join session.logsDir detailedLog) "" with
    | .ok files => (.ok (),{ w with files })
    | .error f => (.error f,w)
  | _,_ => (.ok (),w)

def pipeline (around : Surroundings) (s : Settings) : Pipeline :=
  { settings := s
    models := Pipeline.standardModels s around.clientFault around.server around.environment
    toolchains := Pipeline.standardToolchains s around.machine around.environment }

/-- Starts a session and runs the pipeline in it. -/
def analyze (around : Surroundings) (s : Settings) (command : CommandLine.Command) :
    StateM World Outcome := do
  match ← (Pipeline.start s command.name).run with
  | .error e => return failure e
  | .ok c =>
    match ← openLog s c with
    | .error f => return failureText f.message
    | .ok () =>
      match around.handlerFault with
      | some reason => return failure (.config ("Failed to set Ctrl+C signal handler: " ++ reason))
      | none =>
        let ended ← (pipeline around s).execute c
        return endOutcome (c.session.elim "" Session.dir) ended

def run (around : Surroundings) (args : List String) : StateM World Outcome := do
  match CommandLine.parse args with
  | .error u => return usageOutcome u
  | .ok invocation =>
    match Settings.build (← get).files (.ofInvocation invocation) with
    | .error e => return failure e
    | .ok s =>
      let command := invocation.effective
      if command.runsAnalysis then analyze around s command
      else return unavailable command

end Program

end EndpointAudit
