import EndpointAudit.Launch
import EndpointAudit.Text.Utf8
import EndpointAudit.Toolchain

namespace EndpointAudit

structure JavaTool where
  java : Option String := none
  jar : Option String := none
deriving DecidableEq, Repr

namespace JavaTool

def javaVariable : String := "JAVA_PATH"

def jarVariable : String := "WFG_JAVA_PARSER"

/-- Takes from the environment what is not known yet. -/
def orEnvironment (j : JavaTool) (env : Environment) : JavaTool :=
  { java := j.java.or (env.lookup javaVariable), jar := j.jar.or (env.lookup jarVariable) }

def unset (what setting var : String) : Error :=
  .config ("path to the " ++ what ++ " is not set (config 'parser." ++ setting ++ "' or " ++ var ++
    ")")

/-- Both paths, the executable first. -/
def paths (j : JavaTool) : Except Error (String × String) :=
  match j.java,j.jar with
  | none,_ => .error (unset "java executable" "java_path" javaVariable)
  | some _,none => .error (unset "Java parser jar" "jar_path" jarVariable)
  | some java,some jar => .ok (java,jar)

/-- The parser can be used if both paths are known and the jar is there. -/
def available (j : JavaTool) (t : FileTree) : Except Error Unit := do
  let (_,jar) ← j.paths
  if t.isFile jar then .ok ()
  else .error (.config ("Java parser jar not found at " ++ jar))

def run (j : JavaTool) (m : Machine) (env : Environment) (root : String) (args : List String)
    (t : FileTree) : ToolAnswer Exit :=
  match j.paths with
  | .error e => { answer := .error e, files := t }
  | .ok (java,jar) =>
    let launched := Launch.run m env t java (["-jar",jar,root] ++ args)
    { answer := launched.exit.mapError fun f =>
        .extraction ("failed to launch " ++ java ++ ": " ++ f.message)
      files := launched.files
      stops := launched.stops }

/-- A program that a signal ended counts as one with the status -1. -/
def extractionRun (e : Exit) : ExtractionRun :=
  { status := e.code.getD (-1)
    output := Text.ofBytesLossy e.output
    errorOutput := Text.ofBytesLossy e.errorOutput }

/-- The printed definitions, unless the parser failed. -/
def lookupAnswer (symbol : String) (e : Exit) : Except Error String :=
  if e.succeeded then .ok (Text.ofBytesLossy e.output)
  else .error (.lookup symbol (Text.trim (Text.ofBytesLossy e.errorOutput)))

def extract (j : JavaTool) (m : Machine) (env : Environment) (root target : String)
    (t : FileTree) : ToolAnswer ExtractionRun :=
  let r := j.run m env root ["API","-o",target] t
  { r with answer := r.answer.map extractionRun }

def lookup (j : JavaTool) (m : Machine) (env : Environment) (root symbol : String)
    (t : FileTree) : LookupAnswer :=
  let r := j.run m env root ["DEF","-s",symbol] t
  { answer := r.answer.bind (lookupAnswer symbol), files := r.files, stops := r.stops }

def toolchain (j : JavaTool) (m : Machine) (env : Environment) : Toolchain :=
  { language := "Java"
    available := j.available
    extract := j.extract m env
    lookup := j.lookup m env }

end JavaTool

end EndpointAudit
