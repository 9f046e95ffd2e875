namespace EndpointAudit

/-- A number as it was written: whole numbers that fit into 64 bits stay exact, with a negative one
kept as its absolute value; every other number is a double, given by its bits. Single precision
occurs only in values that are written. -/
inductive Json.Number
  | nat (n : Nat)
  | negative (n : Nat)
  | double (bits : UInt64)
  | single (bits : UInt32)
deriving DecidableEq, Repr

inductive Json
  | null
  | bool (b : Bool)
  | number (n : Json.Number)
  | text (s : String)
  | array (items : List Json)
  | object (members : List (String × Json))
deriving Inhabited, Repr

namespace Json

def ofNat (n : Nat) : Json := .number (.nat n)

def ofFloat (x : Float) : Json := .number (.double x.toBits)

def ofFloat32 (x : Float32) : Json := .number (.single x.toBits)

def ofTexts (ss : List String) : Json := .array (ss.map .text)

/-- An absent value is null. -/
def ofOption (f : α → Json) : Option α → Json
  | none => .null
  | some a => f a

def asText? : Json → Option String
  | .text s => some s
  | _ => none

def asArray? : Json → Option (List Json)
  | .array items => some items
  | _ => none

/-- The member of an object under a key; other values have no members. -/
def get? (key : String) : Json → Option Json
  | .object members => members.lookup key
  | _ => none

/-- Puts a member into a list that is sorted by key; the value given last for a key is kept. -/
def insertMember (key : String) (value : α) : List (String × α) → List (String × α)
  | [] => [(key,value)]
  | (k,v) :: rest =>
    if key < k then (key,value) :: (k,v) :: rest
    else if key = k then (key,value) :: rest
    else (k,v) :: insertMember key value rest

end Json

end EndpointAudit
