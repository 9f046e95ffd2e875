import EndpointAudit.Environment
import EndpointAudit.Error
import EndpointAudit.Json.Printer
import EndpointAudit.Json.Record
import EndpointAudit.Text.Blank
import EndpointAudit.Text.Case
import EndpointAudit.Text.Search

namespace EndpointAudit.Model

structure Entry where
  name : String
  model : String
  baseUrl : String
  /-- The variable that holds the key, if the server wants one. -/
  keyVariable : Option String
  /-- Some servers refuse a temperature. -/
  sendTemperature : Bool
deriving DecidableEq, Repr

namespace Entry

def toJson (e : Entry) : Json :=
  .object [("name",.text e.name),("model",.text e.model),("base_url",.text e.baseUrl),
    ("api_key_env",.ofOption .text e.keyVariable),("send_temperature",.bool e.sendTemperature)]

open Json in
def record : Record Entry :=
  Record.constant Entry.mk
    |>.required "name" Decoder.text
    |>.required "model" Decoder.text
    |>.required "base_url" Decoder.text
    |>.omittable "api_key_env" Decoder.text
    |>.defaulting "send_temperature" Decoder.boolean true

/-- The key to send, absent if the server wants none. A variable that is unset or blank is no
key. -/
def key (e : Entry) (env : Environment) : Except Error (Option String) :=
  match e.keyVariable with
  | none => .ok none
  | some var =>
    let missing := Error.config ("model '" ++ e.name ++ "' requires an API key in the " ++ var ++
      " environment variable")
    match env.lookup var with
    | some k => if Text.isBlankText k then .error missing else .ok (some k)
    | none => .error missing

end Entry

abbrev Table := List Entry

namespace Table

/-- Replaces the entry of the same name, or adds the entry at the end. -/
def upsert (e : Entry) : Table → Table
  | [] => [e]
  | f :: fs => if f.name = e.name then e :: fs else f :: upsert e fs

def upsertAll (t : Table) (es : List Entry) : Table :=
  es.foldl (fun t e => upsert e t) t

/-- The entry that a selector means: the first of that name, or else the first whose name the
selector contains. Case does not count. -/
def select? (t : Table) (selector : String) : Option Entry :=
  let wanted := Text.lower selector
  (List.find? (fun e => Text.lower e.name == wanted) t).or
    (List.find? (fun e => Text.contains wanted (Text.lower e.name)) t)

def resolve (t : Table) (selector : String) : Except Error Entry :=
  (select? t selector).elim (.error (.unknownModel selector)) .ok

def toJson (t : Table) : Json :=
  .object [("models",.array (t.map Entry.toJson))]

open Json in
def record : Record Table :=
  Record.constant id |>.required "models" (Decoder.list Entry.record.decoder)

def standard : Table :=
  [{ name := "qwen"
     model := "qwen2.5-coder-32b-instruct"
     baseUrl := "http://localhost:8000/v1"
     keyVariable := none
     sendTemperature := false },
   { name := "deepseek"
     model := "deepseek-r1"
     baseUrl := "https://ark.cn-beijing.volces.com/api/v3"
     keyVariable := some "DEEPSEEK_API_KEY"
     sendTemperature := true }]

end Table

end EndpointAudit.Model
