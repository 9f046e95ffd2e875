namespace EndpointAudit.Json

/-- The input ended too early, it is not JSON, or it is JSON of another shape than the wanted one.
A document is read from left to right and only its first fault is reported. -/
inductive Fault
  | ended
  | malformed
  | mismatched
deriving DecidableEq, Repr

end EndpointAudit.Json
