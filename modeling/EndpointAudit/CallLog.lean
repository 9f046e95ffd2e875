import EndpointAudit.Session

namespace EndpointAudit.CallLog

structure Entry where
  endpoint : Endpoint
  systemRole : String
  prompt : String
  response : String

def isSafe (c : Char) : Bool :=
  ('a' ≤ c && c ≤ 'z') || ('A' ≤ c && c ≤ 'Z') || ('0' ≤ c && c ≤ '9') || c == '-'

def safeName (name : String) : String :=
  if name.isEmpty then "unnamed"
  else String.ofList (name.toList.map fun c => if isSafe c then c else '_')

def fileName (number : Nat) (e : Endpoint) : String :=
  Text.padded 4 number ++ "_" ++ safeName e.controller ++ "_" ++ safeName e.handler ++ ".log"

def content (time : String) (e : Entry) : String :=
  "[" ++ time ++ "] " ++ e.endpoint.request.method ++ " " ++ e.endpoint.request.path ++
    "\n\n=== SYSTEM ===\n" ++ e.systemRole ++ "\n\n=== PROMPT ===\n" ++ e.prompt ++
    "\n\n=== RESPONSE ===\n" ++ e.response ++ "\n"

def write (t : FileTree) (dir time : String) (number : Nat) (e : Entry) :
    Except Error (String × FileTree) := do
  let path := Path.join dir (fileName number e.endpoint)
  let t ← (t.writeText path (content time e)).mapError (.io path)
  return (path,t)

end EndpointAudit.CallLog
