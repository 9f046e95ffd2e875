import EndpointAudit.Json.Basic
import EndpointAudit.Url

namespace EndpointAudit.Http

structure Request where
  url : Url
  authorization : Option String
  contentType : String
  body : String
deriving DecidableEq, Repr

structure Response where
  status : Nat
  reason : String
  body : String
deriving DecidableEq, Repr

/-- Responses by the earlier requests, oldest first, and the present one. There is none if the
server cannot be reached. -/
abbrev Server := List Request → Request → Option Response

def Request.line (r : Request) : String :=
  "POST " ++ r.url.target ++ " HTTP/1.1"

/-- The request as a document. Blanks around the authorization do not count. -/
def Request.toJson (r : Request) : Json :=
  .object [("line",.text r.line),
    ("authorization",.ofOption (fun s => .text s.trimAscii.toString) r.authorization),
    ("content_type",.text r.contentType),("body",.text r.body)]

/-- Responses of these statuses have no body, whatever the server sends. -/
def Response.content (r : Response) : String :=
  if r.status = 204 ∨ r.status = 304 then "" else r.body

def isHeaderValue (s : String) : Bool :=
  s.toList.all fun c => c == '\t' || (0x20 ≤ c.toNat && c.toNat != 0x7F)

end EndpointAudit.Http
