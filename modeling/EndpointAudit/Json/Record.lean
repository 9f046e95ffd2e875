import EndpointAudit.Json.Decode

namespace EndpointAudit.Json

/-- A decoder for the fields of a record. `Slots` holds the values found so far. `put` stores the
member of a key and is `none` for a key that the record does not have. -/
structure Record (α : Type) : Type 1 where
  Slots : Type
  empty : Slots
  put : Slots → String → Option (Nat → Surface → Except Fault Slots)
  close : Slots → Option α
  items : Nat → List Surface → Stop → Except Fault (α × List Surface)

/-- A field: the keys it goes by, and the values it has where it is left out. -/
structure Field (α : Type) where
  keys : List String
  decoder : Decoder α
  /-- Its value in an object without it. -/
  absent : Option α
  /-- Its value in an array that ends before it. -/
  beyond : Option α

/-- The fault of an array that ends before a field that it must have. -/
def Stop.shortFault : Stop → Fault
  | .closed => .mismatched
  | .broken read _ => read
  | .strayKey _ => .malformed

def Field.record (f : Field α) : Record α where
  Slots := Option α
  empty := none
  put slot key :=
    if f.keys.contains key then
      some fun depth s =>
        match slot with
        | some _ => .error .mismatched
        | none => (f.decoder depth s).map some
    else none
  close slot := slot.or f.absent
  items depth items stop :=
    match items,stop with
    | s :: rest,_ => (f.decoder depth s).map fun a => (a,rest)
    | [],.closed => f.beyond.elim (.error .mismatched) fun a => .ok (a,[])
    | [],stop => .error stop.shortFault

namespace Record

def constant (a : α) : Record α where
  Slots := Unit
  empty := ()
  put _ _ := none
  close _ := some a
  items _ items _ := .ok (a,items)

/-- The fields of two records, those of the first one standing first. -/
def both (r : Record (α → β)) (q : Record α) : Record β where
  Slots := r.Slots × q.Slots
  empty := (r.empty,q.empty)
  put slots key :=
    match r.put slots.1 key with
    | some step => some fun depth s => (step depth s).map fun a => (a,slots.2)
    | none => (q.put slots.2 key).map fun step depth s => (step depth s).map fun b => (slots.1,b)
  close slots := do
    let f ← r.close slots.1
    let a ← q.close slots.2
    return f a
  items depth items stop := do
    let (f,rest) ← r.items depth items stop
    let (a,rest) ← q.items depth rest stop
    return (f a,rest)

/-- Adds a field that must be there. -/
def required (r : Record (α → β)) (key : String) (d : Decoder α) : Record β :=
  r.both (Field.record ⟨[key],d,none,none⟩)

/-- Adds a field that must be there and goes by either of two keys. -/
def requiredAs (r : Record (α → β)) (key other : String) (d : Decoder α) : Record β :=
  r.both (Field.record ⟨[key,other],d,none,none⟩)

/-- Adds a field that has a value of its own where it is left out. -/
def defaulting (r : Record (α → β)) (key : String) (d : Decoder α) (a : α) : Record β :=
  r.both (Field.record ⟨[key],d,some a,some a⟩)

/-- Adds a field that may be null or left out; an array must have it. -/
def nullable (r : Record (Option α → β)) (key : String) (d : Decoder α) : Record β :=
  r.both (Field.record ⟨[key],Decoder.optional d,some none,none⟩)

/-- Adds a field that may be null or left out, in an array too. -/
def omittable (r : Record (Option α → β)) (key : String) (d : Decoder α) : Record β :=
  r.defaulting key (Decoder.optional d) none

/-- Walks the members of an object. A strict record refuses keys that it does not have; otherwise
their values are skipped. -/
def members (r : Record α) (strict : Bool) (depth : Nat) (slots : r.Slots) :
    List (Except Fault String × Surface) → Except Fault r.Slots
  | [] => .ok slots
  | (key,item) :: rest => do
    let k ← key
    match r.put slots k with
    | some step => do
      let slots ← step depth item
      members r strict depth slots rest
    | none =>
      if strict then .error .mismatched
      else do
        skip item
        members r strict depth slots rest

def fromMembers (r : Record α) (strict : Bool) (depth : Nat)
    (ms : List (Except Fault String × Surface)) (stop : Stop) : Except Fault α := do
  let slots ← r.members strict depth r.empty ms
  stop.close
  (r.close slots).elim (.error .mismatched) .ok

def fromItems (r : Record α) (depth : Nat) (items : List Surface) (stop : Stop) :
    Except Fault α := do
  let (a,rest) ← r.items depth items stop
  if rest.isEmpty then
    stop.close
    return a
  else .error .malformed

def decoderWith (strict : Bool) (r : Record α) : Decoder α
  | depth,.object ms stop => Decoder.nested depth fun depth => r.fromMembers strict depth ms stop
  | depth,.array items stop => Decoder.nested depth fun depth => r.fromItems depth items stop
  | _,s => .error s.mismatch

/-- Reads the record from an object or from an array of its fields; other keys are skipped. -/
def decoder (r : Record α) : Decoder α :=
  r.decoderWith false

/-- Reads the record and refuses other keys. -/
def strictDecoder (r : Record α) : Decoder α :=
  r.decoderWith true

end Record

end EndpointAudit.Json
