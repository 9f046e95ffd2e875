import EndpointAudit.Environment
import EndpointAudit.FileTree

namespace EndpointAudit

structure Exit where
  /-- Absent if a signal ended it. -/
  code : Option Int
  output : ByteArray
  errorOutput : ByteArray

def Exit.succeeded (e : Exit) : Bool :=
  e.code == some 0

inductive LaunchFault
  | file (fault : IoFault)
  /-- The name or an argument has a character that cannot be passed on. -/
  | nulByte
deriving DecidableEq, Repr

def LaunchFault.message : LaunchFault → String
  | .file fault => fault.message
  | .nulByte => "nul byte found in provided data"

structure Launched where
  exit : Except LaunchFault Exit
  files : FileTree
  /-- Whether the program asked the audit to stop. -/
  stops : Bool := false

/-- Carries out a program, given its bytes, its path and its arguments. -/
abbrev Machine := ByteArray → String → List String → FileTree → Launched

namespace Launch

def searchDirs (env : Environment) : List String :=
  match env.lookup "PATH" with
  | some dirs => (dirs.toList.splitOn ':').map String.ofList
  | none => []

/-- The first program of a bare name. A file that is not executable is passed over, and reported
only if there is no other. -/
def search (t : FileTree) (name : String) : List String → Except IoFault (String × ByteArray)
  | [] => .error .notFound
  | dir :: dirs =>
    let path := if dir.isEmpty then "./" ++ name else Path.join dir name
    match t.program path with
    | .ok bytes => .ok (path,bytes)
    | .error f =>
      match search t name dirs,f with
      | .ok found,_ => .ok found
      | .error _,.permissionDenied => .error .permissionDenied
      | .error g,_ => .error g

/-- A name with a slash is a path; any other name is searched. -/
def program (t : FileTree) (env : Environment) (name : String) :
    Except IoFault (String × ByteArray) :=
  if name.toList.contains '/' then (t.program name).map fun bytes => (name,bytes)
  else if name.isEmpty then .error .notFound
  else search t name (searchDirs env)

def run (m : Machine) (env : Environment) (t : FileTree) (name : String) (args : List String) :
    Launched :=
  if (name :: args).any fun s => s.toList.contains '\x00' then ⟨.error .nulByte,t,false⟩
  else
    match program t env name with
    | .error f => ⟨.error (.file f),t,false⟩
    | .ok (path,bytes) => m bytes path args t

end Launch

end EndpointAudit
