import EndpointAudit.CodeSpan
import EndpointAudit.Json.Printer
import EndpointAudit.Json.Record

namespace EndpointAudit

/-- The shape of the request that an endpoint answers. Parameters and body entries are sorted by
name. -/
structure Request where
  method : String := ""
  path : String := ""
  query : List (String × String) := []
  body : List (String × Json) := []

structure Endpoint where
  controller : String := ""
  handler : String := ""
  position : String := ""
  /-- The declared method; empty if the tool reports only the request's. -/
  declaredMethod : String := ""
  request : Request := {}
  references : List String := []

def Request.toJson (r : Request) : Json :=
  .object [("method",.text r.method),("path",.text r.path),
    ("query_params",.object (r.query.map fun (k,v) => (k,.text v))),
    ("body",.object r.body)]

open Json in
def Request.record : Record Request :=
  Record.constant Request.mk
    |>.required "method" Decoder.text
    |>.required "path" Decoder.text
    |>.defaulting "query_params" (Decoder.dictionary Decoder.text) []
    |>.defaulting "body" (Decoder.dictionary Decoder.value) []

namespace Endpoint

def toJson (e : Endpoint) : Json :=
  .object [("controller_name",.text e.controller),("method_name",.text e.handler),
    ("code_pos",.text e.position),("http_method",.text e.declaredMethod),
    ("req",e.request.toJson),("references",.ofTexts e.references)]

open Json in
def record : Record Endpoint :=
  Record.constant Endpoint.mk
    |>.required "controller_name" Decoder.text
    |>.required "method_name" Decoder.text
    |>.required "code_pos" Decoder.text
    |>.defaulting "http_method" Decoder.text ""
    |>.required "req" Request.record.decoder
    |>.defaulting "references" (Decoder.list Decoder.text) []

def decoder : Json.Decoder Endpoint :=
  record.decoder

def label (e : Endpoint) : String :=
  e.controller ++ "." ++ e.handler

def validate (e : Endpoint) : Except Error Unit :=
  (CodeSpan.parse e.position).map fun _ => ()

/-- Whether all positions are written code spans; the first fault counts. -/
def validateAll : List Endpoint → Except Error Unit
  | [] => .ok ()
  | e :: es => do
    e.validate
    validateAll es

/-- The declared method, or else the request's. -/
def method (e : Endpoint) : String :=
  if e.declaredMethod.isEmpty then e.request.method else e.declaredMethod

/-- The type of the request body, if it is given as a text. -/
def bodyType? (e : Endpoint) : Option String :=
  (e.request.body.lookup "type").bind Json.asText?

/-- The symbols whose definitions help to understand an endpoint: its references, the type of its
body and the types of its query parameters, each once, where it stands first. -/
def symbols (e : Endpoint) : List String :=
  ((e.references ++ e.bodyType?.toList ++ e.request.query.map (·.2)).filter
    fun s => !Text.isBlankText s).eraseDups

end Endpoint

end EndpointAudit
