import EndpointAudit.Error
import EndpointAudit.Json.Record
import EndpointAudit.Text.Blank

namespace EndpointAudit

structure Candidate where
  code : String
  symbol : Option String
  kind : Option String
  position : Option String
deriving DecidableEq, Repr

open Json in
def Candidate.record : Record Candidate :=
  Record.constant Candidate.mk
    |>.required "definition_code" Decoder.text
    |>.omittable "symbol_name" Decoder.text
    |>.omittable "definition_type" Decoder.text
    |>.omittable "code_pos" Decoder.text

namespace Definition

/-- The candidates in the answer of a lookup tool; blanks around it do not count. -/
def candidates (answer : String) : Except Json.Fault (List Candidate) :=
  Json.decode (Json.Decoder.list Candidate.record.decoder) (Text.trim answer)

/-- The code that a lookup yields for a symbol, absent if there is no candidate. -/
def resolve (symbol : String) (answer : Except Error String) : Except Error (Option String) := do
  let raw ← answer
  match candidates raw with
  | .error f => .error (.lookup symbol ("malformed lookup response: " ++ Error.faultText f))
  | .ok cs => .ok (cs.head?.map Candidate.code)

end Definition

end EndpointAudit
