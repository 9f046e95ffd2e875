import EndpointAudit.Clock
import EndpointAudit.Endpoint

namespace EndpointAudit

structure Session where
  id : String
  dir : String
deriving DecidableEq, Repr

/-- The version that sessions are marked with. -/
def version : String := "0.3.0"

namespace Session

def toJson (s : Session) : Json :=
  .object [("id",.text s.id),("dir",.text s.dir)]

def dataDir (s : Session) : String :=
  Path.join s.dir "data"

def logsDir (s : Session) : String :=
  Path.join s.dir "logs"

def callDir (s : Session) : String :=
  Path.join s.logsDir "llm"

def makeDirs (t : FileTree) (path : String) : Except Error FileTree :=
  (t.makeDirs path).mapError (.io path)

def openAt (t : FileTree) (dir id : String) : Except Error (Session × FileTree) := do
  let s : Session := { id, dir }
  let t ← makeDirs t (Path.join s.dataDir "API")
  let t ← makeDirs t s.callDir
  return (s,t)

/-- The stamp itself, and then the stamp with a number. -/
def candidate (stamp : String) : Nat → String
  | 0 => stamp
  | k + 1 => stamp ++ "_" ++ toString (k + 1)

/-- The first candidate from the `k`-th on that does not exist yet. -/
def freeId (t : FileTree) (root stamp : String) : Nat → Nat → String
  | 0,k => candidate stamp k
  | fuel + 1,k =>
    if t.pathExists (Path.join root (candidate stamp k)) then freeId t root stamp fuel (k + 1)
    else candidate stamp k

/-- Makes a session under a root, named by the first candidate whose path leads nowhere. One of them
does, since there are more of them than entries. -/
def create (t : FileTree) (root : String) (clock : Clock) : Except Error (Session × FileTree) :=
  let id := freeId t root clock.stamp (t.entries.length + 1) 0
  openAt t (Path.join root id) id

/-- Writes a value as pretty JSON to a path inside the session, and returns the whole path. -/
def writeJson (s : Session) (t : FileTree) (relative : String) (value : Json) :
    Except Error (String × FileTree) := do
  let path := Path.join s.dir relative
  let t ←
    match Path.parent? path with
    | some up => makeDirs t up
    | none => .ok t
  let t ← (t.writeText path value.pretty).mapError (.io path)
  return (path,t)

def writeInfo (s : Session) (t : FileTree) (clock : Clock) (project command model : String) :
    Except Error FileTree := do
  let (_,t) ← s.writeJson t "session_info.json" (.object [("session_id",.text s.id),
    ("start_time",.text clock.time),("project_path",.text project),
    ("command",.text command),("model",.text model),("version",.text version)])
  return t

end Session

end EndpointAudit
