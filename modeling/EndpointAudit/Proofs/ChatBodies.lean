import EndpointAudit.Model.Chat
import EndpointAudit.Proofs.LaidOutNumbers
import EndpointAudit.Proofs.SpanTexts

namespace EndpointAudit.Model.Chat

open EndpointAudit.Json EndpointAudit.Decimal

variable {table : Table} {e : Entry} {g : Generation} {x : Float32}

/-- The temperature as it stands in a body: null where it is no finite number. -/
def spoken (x : Float32) : Json :=
  match Binary.ofFloat32 (Float32.ofBits x.toBits) with
  | .finite .. => .ofFloat32 x
  | _ => .null

/-- The members of a body as they are written. -/
def members (e : Entry) (g : Generation) : List (String × Json) :=
  [("model",.text e.model),
    ("messages",.array [message "system" g.systemRole,message "user" g.prompt])] ++
    if e.sendTemperature then [("temperature",spoken g.temperature)] else []

end EndpointAudit.Model.Chat
