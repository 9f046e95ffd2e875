import EndpointAudit.Session

namespace EndpointAudit.CommandLine

inductive Command
  | staticAnalysis
  | fuzzing
  | scripts
  | all
deriving DecidableEq, Repr

def Command.name : Command → String
  | .staticAnalysis => "sa"
  | .fuzzing => "df"
  | .scripts => "gen"
  | .all => "all"

def Command.ofName? (name : String) : Option Command :=
  [Command.staticAnalysis,.fuzzing,.scripts,.all].find? (·.name == name)

def Command.runsAnalysis : Command → Bool
  | .staticAnalysis => true
  | .all => true
  | _ => false

def helpName : String := "help"

structure Invocation where
  project : String
  output : Option String := none
  verbose : Bool := false
  config : Option String := none
  workers : Option Nat := none
  model : Option String := none
  templates : Option String := none
  command : Option Command := none
deriving DecidableEq, Repr

/-- Without a command all groups are run. -/
def Invocation.effective (i : Invocation) : Command :=
  i.command.getD .all

def Invocation.toJson (i : Invocation) : Json :=
  .object [("project",.text i.project),("output",.ofOption .text i.output),
    ("verbose",.bool i.verbose),("config",.ofOption .text i.config),
    ("workers",.ofOption .ofNat i.workers),("model",.ofOption .text i.model),
    ("templates",.ofOption .text i.templates),
    ("command",.ofOption .text (i.command.map Command.name)),
    ("effective",.text i.effective.name),
    ("runs_static_analysis",.bool i.effective.runsAnalysis)]

inductive ValueOption
  | project
  | output
  | config
  | workers
  | model
  | templates
deriving DecidableEq, Repr

def ValueOption.usage : ValueOption → String
  | .project => "--project <PATH>"
  | .output => "--output <DIR>"
  | .config => "--config <FILE>"
  | .workers => "--workers <N>"
  | .model => "--model <MODEL>"
  | .templates => "--templates <DIR>"

inductive Switch
  | value (o : ValueOption)
  | verbose
  | help
  | version
deriving DecidableEq, Repr

def longSwitches : List (String × Switch) :=
  [("project",.value .project),("output",.value .output),("verbose",.verbose),
    ("config",.value .config),("workers",.value .workers),("model",.value .model),
    ("templates",.value .templates),("help",.help),("version",.version)]

def shortSwitches : List (Char × Switch) :=
  [('p',.value .project),('o',.value .output),('v',.verbose),('c',.value .config),
    ('j',.value .workers),('m',.value .model),('h',.help),('V',.version)]

/-- The options of a command, which has none of its own. -/
def commandLongSwitches : List (String × Switch) :=
  [("help",.help),("version",.version)]

def commandShortSwitches : List (Char × Switch) :=
  [('h',.help),('V',.version)]

inductive NumberFault
  | empty
  | invalidDigit
  | tooLarge
deriving DecidableEq, Repr

def NumberFault.message : NumberFault → String
  | .empty => "cannot parse integer from empty string"
  | .invalidDigit => "invalid digit found in string"
  | .tooLarge => "number too large to fit in target type"

/-- Why there is nothing to run. Help and version are among the reasons. -/
inductive Usage
  | help
  /-- The version was asked of the program, or of the given command. -/
  | version (command : Option Command)
  | missingProject
  | unknownArgument (arg : String)
  | unknownCommand (arg : String)
  | missingValue (o : ValueOption)
  | invalidNumber (value : String) (fault : NumberFault)
  | repeated (option : String)
  | extraValue (value option : String)
deriving DecidableEq, Repr

/-- The first line of a usage error; help and version are no errors. -/
def Usage.errorLine? : Usage → Option String
  | .help => none
  | .version _ => none
  | .missingProject => some "the following required arguments were not provided:"
  | .unknownArgument arg => some ("unexpected argument '" ++ arg ++ "' found")
  | .unknownCommand arg => some ("unrecognized subcommand '" ++ arg ++ "'")
  | .missingValue o =>
    some ("a value is required for '" ++ o.usage ++ "' but none was supplied")
  | .invalidNumber value fault =>
    some ("invalid value '" ++ value ++ "' for '" ++ ValueOption.workers.usage ++ "': " ++
      fault.message)
  | .repeated option => some ("the argument '" ++ option ++ "' cannot be used multiple times")
  | .extraValue value option =>
    some ("unexpected value '" ++ value ++ "' for '" ++ option ++
      "' found; no more were expected")

def digitsValue? (cs : List Char) : Option Nat :=
  if cs.isEmpty then none else cs.foldlM (fun n c => (CodeSpan.digitValue? c).map (n * 10 + ·)) 0

/-- A number of workers: digits with an optional plus, within 64 bits. -/
def workersOf (value : String) : Except NumberFault Nat :=
  match value.toList with
  | [] => .error .empty
  | c :: cs =>
    match digitsValue? (if c = '+' then cs else c :: cs) with
    | none => .error .invalidDigit
    | some n => if n < UInt64.size then .ok n else .error .tooLarge

/-- What has been read so far. An option whose value has not been checked yet is pending. -/
structure Reading where
  values : List (ValueOption × String) := []
  workers : Option Nat := none
  verbose : Bool := false
  pending : Option (ValueOption × Option String) := none

namespace Reading

def store (r : Reading) (o : ValueOption) (value : String) : Except Usage Reading :=
  if (r.values.lookup o).isSome then .error (.repeated o.usage)
  else
    let r := { r with values := r.values ++ [(o,value)] }
    if o = .workers then
      match workersOf value with
      | .ok n => .ok { r with workers := some n }
      | .error f => .error (.invalidNumber value f)
    else .ok r

def settle (r : Reading) : Except Usage Reading :=
  match r.pending with
  | none => .ok r
  | some (o,none) => .error (.missingValue o)
  | some (o,some value) => { r with pending := none }.store o value

def wantsValue (r : Reading) : Bool :=
  match r.pending with
  | some (_,none) => true
  | _ => false

/-- Meets an option with a value, which may stand in the same argument. -/
def meetValue (r : Reading) (o : ValueOption) : Option String → Except Usage Reading
  | some value => do (← r.settle).store o value
  | none => do return { ← r.settle with pending := some (o,none) }

def meetVerbose (r : Reading) : Except Usage Reading := do
  let r ← r.settle
  if r.verbose then .error (.repeated "--verbose") else .ok { r with verbose := true }

/-- Meets the switches of an argument that starts with a single dash. -/
def meetShorts (r : Reading) (command : Option Command) (table : List (Char × Switch)) :
    List Char → Except Usage Reading
  | [] => .ok r
  | c :: cs =>
    match table.lookup c with
    | none => .error (.unknownArgument ("-" ++ c.toString))
    | some .help => do let _ ← r.settle; .error .help
    | some .version => do let _ ← r.settle; .error (.version command)
    | some .verbose => do (← r.meetVerbose).meetShorts command table cs
    | some (.value o) =>
      match cs with
      | [] => r.meetValue o none
      | '=' :: value => r.meetValue o (some (String.ofList value))
      | value => r.meetValue o (some (String.ofList value))

def switchUsage : Switch → String
  | .value o => o.usage
  | .verbose => "--verbose"
  | .help => "--help"
  | .version => "--version"

/-- Meets an argument that starts with two dashes, which have been dropped. -/
def meetLong (r : Reading) (command : Option Command) (table : List (String × Switch))
    (cs : List Char) : Except Usage Reading :=
  let (name,value) :=
    match Text.cutFirst (· == '=') cs with
    | some (name,value) => (String.ofList name,some (String.ofList value))
    | none => (String.ofList cs,none)
  match table.lookup name,value with
  | none,_ => .error (.unknownArgument ("--" ++ name))
  | some (.value o),value => r.meetValue o value
  | some switch,some value => .error (.extraValue value (switchUsage switch))
  | some .verbose,none => r.meetVerbose
  | some .help,none => do let _ ← r.settle; .error .help
  | some .version,none => do let _ ← r.settle; .error (.version command)

end Reading

/-- Whether an argument has the form of an option, and which: two dashes alone end the options. -/
inductive Form
  | endOfOptions
  | long (cs : List Char)
  | short (cs : List Char)
  | plain

def formOf (arg : String) : Form :=
  match arg.toList with
  | ['-','-'] => .endOfOptions
  | '-' :: '-' :: cs => .long cs
  | '-' :: c :: cs => .short (c :: cs)
  | _ => .plain

/-- The arguments after a command may only ask for help or the version. -/
def readCommand (command : Command) : List String → Except Usage Unit
  | [] => .ok ()
  | arg :: args =>
    match formOf arg with
    | .endOfOptions =>
      match args with
      | [] => .ok ()
      | next :: _ => .error (.unknownArgument next)
    | .long cs => do
      let _ ← ({} : Reading).meetLong (some command) commandLongSwitches cs
      readCommand command args
    | .short cs => do
      let _ ← ({} : Reading).meetShorts (some command) commandShortSwitches cs
      readCommand command args
    | .plain => .error (.unknownArgument arg)

/-- Help may be asked for a command by its name. -/
def readHelp : List String → Usage
  | [] => .help
  | name :: names =>
    if (Command.ofName? name).isSome || name == helpName then
      match names with
      | [] => .help
      | next :: _ => .unknownCommand next
    else .unknownCommand name

/-- No argument after the end of the options has a meaning. -/
def readTrailing : List String → Except Usage Unit
  | [] => .ok ()
  | arg :: _ =>
    if (Command.ofName? arg).isSome || arg == helpName then .error (.unknownArgument arg)
    else .error (.unknownCommand arg)

def readArgs (r : Reading) : List String → Except Usage (Reading × Option Command)
  | [] => do return (← r.settle,none)
  | arg :: args =>
    match (if r.wantsValue then none else Command.ofName? arg) with
    | some command => do
      readCommand command args
      return (← r.settle,some command)
    | none =>
      if !r.wantsValue && arg == helpName then .error (readHelp args)
      else
        match formOf arg with
        | .endOfOptions => do
          readTrailing args
          return (← r.settle,none)
        | .long cs => do readArgs (← r.meetLong none longSwitches cs) args
        | .short cs => do readArgs (← r.meetShorts none shortSwitches cs) args
        | .plain =>
          match r.pending with
          | some (o,none) => readArgs { r with pending := some (o,some arg) } args
          | _ => .error (.unknownCommand arg)

def parse (args : List String) : Except Usage Invocation := do
  let (r,command) ← readArgs {} args
  match r.values.lookup .project with
  | none => .error .missingProject
  | some project =>
    return {
      project
      output := r.values.lookup .output
      verbose := r.verbose
      config := r.values.lookup .config
      workers := r.workers
      model := r.values.lookup .model
      templates := r.values.lookup .templates
      command }

end EndpointAudit.CommandLine
