import EndpointAudit.Http
import EndpointAudit.Json.Record
import EndpointAudit.Model.Generation
import EndpointAudit.Model.Table

namespace EndpointAudit.Model

/-- Models that can be asked: whether one can serve a selector, checked before any work starts, and
what they answer. -/
structure Backend where
  serves : String → Except Error Unit
  answer : Generator

namespace Chat

def address (baseUrl : String) : String :=
  String.ofList (baseUrl.toList.reverse.dropWhile (· == '/')).reverse ++ "/chat/completions"

def message (role content : String) : Json :=
  .object [("role",.text role),("content",.text content)]

/-- The temperature is left out for servers that refuse it. -/
def body (e : Entry) (g : Generation) : Json :=
  .object ([("model",.text e.model),
      ("messages",.array [message "system" g.systemRole,message "user" g.prompt])] ++
    (if e.sendTemperature then [("temperature",.ofFloat32 g.temperature)] else []))

/-- An address that cannot be read is not shown. -/
def unusable (url : Option Url) : Error :=
  .generation ("builder error" ++ url.elim "" fun u => " for url (" ++ u.toText ++ ")")

def serverUrl (e : Entry) : Except Error Url :=
  match Url.parse? (address e.baseUrl) with
  | none => .error (unusable none)
  | some u => if u.authority.isSome then .ok u else .error (unusable (some u))

/-- A key must fit into a header, and the server must speak HTTP. -/
def checkSendable (u : Url) (authorization : Option String) : Except Error Unit :=
  if !authorization.all Http.isHeaderValue then .error (unusable none)
  else if u.scheme = "http" ∨ u.scheme = "https" then .ok ()
  else .error (unusable (some u))

def request (table : Table) (env : Environment) (g : Generation) : Except Error Http.Request := do
  let e ← table.resolve g.selector
  let key ← e.key env
  let url ← serverUrl e
  let authorization := key.map ("Bearer " ++ ·)
  checkSendable url authorization
  return { url, authorization, contentType := "application/json", body := (body e g).compact }

open Json in
/-- The text of a message, which may be null or left out. -/
def messageRecord : Record (Option String) :=
  Record.constant id |>.omittable "content" Decoder.text

open Json in
def choiceRecord : Record (Option String) :=
  Record.constant id |>.required "message" messageRecord.decoder

open Json in
def responseRecord : Record (List (Option String)) :=
  Record.constant id |>.required "choices" (Decoder.list choiceRecord.decoder)

/-- The text of the first choice; without one the completion is empty. -/
def completion (document : String) : Except Json.Fault String :=
  (Json.decode responseRecord.decoder document).map fun choices => (choices.head?.join).getD ""

/-- How a failure status is reported, if the status is one. -/
def statusFault? (url : Url) (r : Http.Response) : Option Error :=
  let fault (side : String) :=
    Error.generation ("HTTP status " ++ side ++ " error (" ++ toString r.status ++ " " ++ r.reason ++
      ") for url (" ++ url.toText ++ ")")
  if 400 ≤ r.status ∧ r.status < 500 then some (fault "client")
  else if 500 ≤ r.status ∧ r.status < 600 then some (fault "server")
  else none

/-- What a response means; there is none from a server that cannot be reached. -/
def receive (url : Url) : Option Http.Response → Except Error String
  | none => .error (.generation ("error sending request for url (" ++ url.toText ++ ")"))
  | some r =>
    match statusFault? url r with
    | some e => .error e
    | none =>
      (completion r.content).mapError fun _ =>
        .generation "unexpected response body: error decoding response body"

/-- The completion that a server gives for a generation after the earlier ones. -/
def generate (table : Table) (env : Environment) (server : Http.Server) (asked : List Generation)
    (g : Generation) : Except Error String := do
  let r ← request table env g
  receive r.url (server (asked.filterMap fun a => (request table env a).toOption) r)

def backend (table : Table) (env : Environment) (server : Http.Server) : Backend :=
  { serves := fun selector => do
      let e ← table.resolve selector
      let _ ← e.key env
    answer := fun asked g =>
      { outcome := match generate table env server asked g with
          | .ok text => .completion text
          | .error e => .failed e } }

/-- The note about a call: a rough count of the tokens that went in and came out. -/
def tokenNote (g : Generation) (output : String) : String :=
  let tokens (s : String) := (Text.words s).length
  "Token consumption - input: " ++ toString (tokens g.systemRole + tokens g.prompt) ++
    ", output: " ++ toString (tokens output)

end Chat

end EndpointAudit.Model
