import EndpointAudit.Error

namespace EndpointAudit.Model

structure Generation where
  prompt : String
  selector : String
  temperature : Float32
  systemRole : String

/-- How the model answers: with a completion, with a failure, or by bringing down the task that
asked it. -/
inductive Outcome
  | completion (text : String)
  | failed (e : Error)
  | crashed (message : String)

structure Call where
  index : Nat
  generation : Generation
  outcome : Outcome

structure Reply where
  outcome : Outcome
  /-- Whether the run is cancelled before the reply arrives. -/
  stops : Bool := false

/-- A model may answer according to everything that it was asked before, oldest request first. -/
abbrev Generator := List Generation → Generation → Reply

end EndpointAudit.Model
