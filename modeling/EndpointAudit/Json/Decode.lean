import EndpointAudit.Json.Surface

namespace EndpointAudit.Json

/-- How many arrays and objects may be open at once while values are read. -/
def maxNesting : Nat := 127

/-- Reads a part of a document in which the given number of brackets may still be opened. -/
abbrev Decoder (α : Type) := Nat → Surface → Except Fault α

/-- The fault of a value that has another shape than the wanted one. Scalars are read before they
are refused. -/
def Surface.mismatch : Surface → Fault
  | .number (.error f) => f
  | .text (.error f) => f
  | .broken read _ => read
  | .cut read _ => read
  | _ => .mismatched

mutual

/-- What is wrong with a value whose content does not matter. -/
def Surface.skipFault : Surface → Option Fault
  | .array items stop => (skipItems items).or stop.skipFault
  | .object members stop => (skipMembers members).or stop.skipFault
  | .broken _ skipped => some skipped
  | .cut _ skipped => some skipped
  | _ => none

def Stop.skipFault : Stop → Option Fault
  | .closed => none
  | .broken _ skipped => some skipped
  | .strayKey (.broken _ skipped) => some skipped
  | .strayKey _ => some .malformed

def skipItems : List Surface → Option Fault
  | [] => none
  | item :: items => item.skipFault.or (skipItems items)

def skipMembers : List (Except Fault String × Surface) → Option Fault
  | [] => none
  | (_,value) :: members => value.skipFault.or (skipMembers members)

end

def skip (s : Surface) : Except Fault Unit :=
  match s.skipFault with
  | some f => .error f
  | none => .ok ()

def Stop.close : Stop → Except Fault Unit
  | .closed => .ok ()
  | .broken read _ => .error read
  | .strayKey (.broken read _) => .error read
  | .strayKey _ => .error .malformed

def Number.toFloat : Number → Float
  | .nat n => n.toUInt64.toFloat
  | .negative n => -n.toUInt64.toFloat
  | .double bits => Float.ofBits bits
  | .single bits => (Float32.ofBits bits).toFloat

def Number.toFloat32 : Number → Float32
  | .nat n => n.toUInt64.toFloat32
  | .negative n => -n.toUInt64.toFloat32
  | .double bits => (Float.ofBits bits).toFloat32
  | .single bits => Float32.ofBits bits

namespace Decoder

def nested (depth : Nat) (k : Nat → Except Fault α) : Except Fault α :=
  match depth with
  | 0 => .error .malformed
  | depth + 1 => k depth

mutual

/-- Reads any value. Of several members under one key the last is kept. -/
def value : Decoder Json
  | _,.null => .ok .null
  | _,.bool b => .ok (.bool b)
  | _,.number v => v.map .number
  | _,.text v => v.map .text
  | 0,.array .. => .error .malformed
  | depth + 1,.array items stop => do
    let vs ← values depth items
    stop.close
    return .array vs
  | 0,.object .. => .error .malformed
  | depth + 1,.object members stop => do
    let vs ← memberValues depth members []
    stop.close
    return .object vs
  | _,.broken read _ => .error read
  | _,.cut read _ => .error read

def values (depth : Nat) : List Surface → Except Fault (List Json)
  | [] => .ok []
  | item :: items => do
    let v ← value depth item
    let vs ← values depth items
    return v :: vs

def memberValues (depth : Nat) :
    List (Except Fault String × Surface) → List (String × Json) →
      Except Fault (List (String × Json))
  | [],done => .ok done
  | (key,item) :: members,done => do
    let k ← key
    let v ← value depth item
    memberValues depth members (insertMember k v done)

end

def text : Decoder String
  | _,.text v => v
  | _,s => .error s.mismatch

def boolean : Decoder Bool
  | _,.bool b => .ok b
  | _,s => .error s.mismatch

/-- A whole number from 0 up to and including `limit`. -/
def natUpTo (limit : Nat) : Decoder Nat
  | _,.number (.ok (.nat n)) => if n ≤ limit then .ok n else .error .mismatched
  | _,s => .error s.mismatch

def word64 : Decoder Nat := natUpTo maxWord

def word32 : Decoder Nat := natUpTo (UInt32.size - 1)

def double : Decoder Float
  | _,.number (.ok n) => .ok n.toFloat
  | _,s => .error s.mismatch

def single : Decoder Float32
  | _,.number (.ok n) => .ok n.toFloat32
  | _,s => .error s.mismatch

/-- Null stands for an absent value. -/
def optional (d : Decoder α) : Decoder (Option α)
  | _,.null => .ok none
  | depth,s => (d depth s).map some

def eachItem (d : Decoder α) (depth : Nat) : List Surface → Except Fault (List α)
  | [] => .ok []
  | item :: items => do
    let a ← d depth item
    let as ← eachItem d depth items
    return a :: as

def list (d : Decoder α) : Decoder (List α)
  | depth,.array items stop =>
    nested depth fun depth => do
      let as ← eachItem d depth items
      stop.close
      return as
  | _,s => .error s.mismatch

def eachMember (d : Decoder α) (depth : Nat) :
    List (Except Fault String × Surface) → List (String × α) → Except Fault (List (String × α))
  | [],done => .ok done
  | (key,item) :: members,done => do
    let k ← key
    let a ← d depth item
    eachMember d depth members (insertMember k a done)

/-- An object with any keys, sorted by them; of equal keys the last is kept. -/
def dictionary (d : Decoder α) : Decoder (List (String × α))
  | depth,.object members stop =>
    nested depth fun depth => do
      let entries ← eachMember d depth members []
      stop.close
      return entries
  | _,s => .error s.mismatch

/-- One of a few names, given as a text or as an object whose one member has that name and is
null. -/
def choice (names : List (String × α)) : Decoder α
  | _,.text v => do
    let name ← v
    (names.lookup name).elim (.error .mismatched) .ok
  | depth,.object members stop =>
    nested depth fun _ =>
      match members,stop with
      | (key,item) :: others,stop => do
        let name ← key
        let a ← (names.lookup name).elim (.error .mismatched) .ok
        match item with
        | .null => .ok ()
        | item => .error item.mismatch
        match others,stop with
        | [],.closed => .ok a
        | [],.broken read _ => .error read
        | _,_ => .error .malformed
      | [],.strayKey key => .error key.mismatch
      | [],.closed => .error .malformed
      | [],.broken read _ => .error read
  | _,.broken read _ => .error read
  | _,_ => .error .malformed

end Decoder

def decode (d : Decoder α) (s : String) : Except Fault α := do
  let document := Document.ofText s
  let a ← d maxNesting document.value
  if document.trailing then .error .malformed else .ok a

def parse (s : String) : Except Fault Json :=
  decode Decoder.value s

end EndpointAudit.Json
