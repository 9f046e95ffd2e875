import EndpointAudit.Definition
import EndpointAudit.Glob
import EndpointAudit.RecordFile

namespace EndpointAudit

structure ExtractionRun where
  status : Int := 0
  output : String := ""
  errorOutput : String := ""
deriving DecidableEq, Repr

def ExtractionRun.succeeded (r : ExtractionRun) : Bool :=
  r.status == 0

def ExtractionRun.toJson (r : ExtractionRun) : Json :=
  .object [("status",.number (if r.status < 0 then .negative r.status.natAbs else .nat r.status.toNat)),
    ("stdout",.text r.output),("stderr",.text r.errorOutput),("succeeded",.bool r.succeeded)]

/-- What a tool leaves behind: its answer, the file tree after it ran, and whether it asked the
audit to stop. -/
structure ToolAnswer (α : Type) where
  answer : Except Error α
  files : FileTree
  stops : Bool := false

/-- What a lookup leaves behind. One that crashes does not answer but brings down the task that asked
for it. -/
structure LookupAnswer extends ToolAnswer String where
  crash : Option String := none

structure Toolchain where
  language : String
  /-- Whether the extraction tool can be used. -/
  available : FileTree → Except Error Unit
  /-- Extracts the endpoints of the project at the first path into the directory at the second. -/
  extract : String → String → FileTree → ToolAnswer ExtractionRun
  lookup : String → String → FileTree → LookupAnswer

namespace Toolchain

/-- The words of a project kind: what stands between slashes and blanks. -/
def kindWords (kind : String) : List String :=
  (kind.toList.splitOnP fun c => c == '/' || Text.isBlank c).map String.ofList

/-- The first toolchain whose language is a word of the project kind. -/
def select (toolchains : List Toolchain) (kind : String) : Except Error Toolchain :=
  (toolchains.find? fun t => (kindWords kind).contains t.language).elim
    (.error (.unsupportedProject kind)) .ok

end Toolchain

/-- The endpoints that an extraction left in a session directory: those of the list for the whole
project, then those of the controllers in order of their names. Files that cannot be read add
nothing. The path of the directory and the names in it are texts: nothing is said of a path with other
bytes, for which the pattern would be another one. -/
def loadEndpoints (t : FileTree) (session : String) : Except Error (List Endpoint) :=
  let whole := Path.join session "api_extraction.json"
  let pattern := Path.join (Path.join (Path.join session "data") "API") "*.json"
  match Glob.paths? t pattern with
  | none => .error (.extraction ("invalid record glob '" ++ pattern ++ "'"))
  | some controllers =>
    let paths := (if t.isFile whole then [whole] else []) ++ controllers
    .ok (paths.flatMap fun path => ((RecordFile.load t path).toOption).getD [])

end EndpointAudit
