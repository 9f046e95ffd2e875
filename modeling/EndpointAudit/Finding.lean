import EndpointAudit.Endpoint

namespace EndpointAudit

/-- What a completion says about its endpoint. It is incomplete if it says nothing readable. -/
inductive Verdict
  | success
  | fail
  | incomplete
deriving DecidableEq, Repr

def Verdict.name : Verdict → String
  | .success => "success"
  | .fail => "fail"
  | .incomplete => "incomplete"

def Verdict.decoder : Json.Decoder Verdict :=
  Json.Decoder.choice ([.success,.fail,.incomplete].map fun v : Verdict => (v.name,v))

structure Finding where
  index : Nat
  endpoint : Endpoint
  text : String
  verdict : Verdict

def Finding.toJson (f : Finding) : Json :=
  .object [("index",.ofNat f.index),("api_info",f.endpoint.toJson),("analysis",.text f.text),
    ("status",.text f.verdict.name)]

open Json in
def Finding.record : Record Finding :=
  Record.constant Finding.mk
    |>.required "index" Decoder.word64
    |>.required "api_info" Endpoint.decoder
    |>.required "analysis" Decoder.text
    |>.required "status" Verdict.decoder

structure Tally where
  collected : Nat := 0
  parsed : Nat := 0
  successes : Nat := 0
  /-- Successes in percent of those read, to two places; absent if none could be read. -/
  rate : Option Float := none

def Tally.toJson (t : Tally) : Json :=
  .object [("total_collected",.ofNat t.collected),("parsed",.ofNat t.parsed),
    ("successes",.ofNat t.successes),("success_rate",.ofOption .ofFloat t.rate)]

open Json in
def Tally.record : Record Tally :=
  Record.constant Tally.mk
    |>.required "total_collected" Decoder.word64
    |>.required "parsed" Decoder.word64
    |>.required "successes" Decoder.word64
    |>.nullable "success_rate" Decoder.double

structure Report where
  total : Nat
  overview : String
  recommendations : List String
  findings : List Finding

def Report.toJson (r : Report) : Json :=
  .object [("total_apis",.ofNat r.total),("api_summary",.text r.overview),
    ("recommendations",.ofTexts r.recommendations),
    ("analysis_results",.array (r.findings.map Finding.toJson))]

open Json in
def Report.record : Record Report :=
  Record.constant Report.mk
    |>.required "total_apis" Decoder.word64
    |>.required "api_summary" Decoder.text
    |>.required "recommendations" (Decoder.list Decoder.text)
    |>.required "analysis_results" (Decoder.list Finding.record.decoder)

end EndpointAudit
