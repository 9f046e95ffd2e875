import EndpointAudit.Endpoint

namespace EndpointAudit.RecordFile

open Json in
/-- The endpoints of one controller, whose name is not used. -/
def controller : Record (List Endpoint) :=
  Record.constant (fun _ endpoints => endpoints)
    |>.omittable "controller_name" Decoder.text
    |>.required "apis" (Decoder.list Endpoint.decoder)

/-- Reads either form. The document is first read as JSON of any shape, so that a break of the text
is found before a wrong shape. -/
def decoder : Json.Decoder (List Endpoint)
  | depth,s => do
    let _ ← Json.Decoder.value depth s
    match controller.decoder depth s with
    | .ok endpoints => .ok endpoints
    | .error _ => (Json.Decoder.list Endpoint.decoder depth s).mapError fun _ => .mismatched

def parse (text : String) : Except Json.Fault (List Endpoint) :=
  Json.decode decoder text

def load (t : FileTree) (path : String) : Except Error (List Endpoint) := do
  let text ← (t.readText path).mapError (.io path)
  (parse text).mapError (.json path)

end EndpointAudit.RecordFile
