import EndpointAudit.Json.Printer

namespace EndpointAudit.Prompt

structure Params where
  entries : List (String × String) := []
deriving DecidableEq, Repr

namespace Params

/-- Replaces the value of a key, or adds the key at the end. -/
def setEntry (key value : String) : List (String × String) → List (String × String)
  | [] => [(key,value)]
  | (k,v) :: rest => if k = key then (k,value) :: rest else (k,v) :: setEntry key value rest

def set (p : Params) (key value : String) : Params :=
  ⟨setEntry key value p.entries⟩

/-- The text that stands for a JSON value: a text itself, anything else as compact JSON. -/
def textOf : Json → String
  | .text s => s
  | v => v.compact

def setJson (p : Params) (key : String) (value : Json) : Params :=
  p.set key (textOf value)

def get? (p : Params) (key : String) : Option String :=
  p.entries.lookup key

def ofList (pairs : List (String × String)) : Params :=
  pairs.foldl (fun p (k,v) => p.set k v) {}

end Params

end EndpointAudit.Prompt
