import EndpointAudit.Proofs.Reads
import EndpointAudit.Proofs.Rounds

namespace EndpointAudit.Pipeline

open EndpointAudit.Graph Act Context Stages

variable {p : Pipeline} {g : Graph World}

end EndpointAudit.Pipeline
