import EndpointAudit.Json.Numeral
import EndpointAudit.Json.Text
import EndpointAudit.Text.Search

namespace EndpointAudit.Json

mutual

/-- A value as it stands in the text. Where it is `broken` there is no value or only the start of a
text, and where it is `cut` there is only the start of a word or number. `read` is the fault if the
value is wanted, `skipped` the one if it is not. -/
inductive Surface
  | null
  | bool (b : Bool)
  | number (value : Except Fault Number)
  | text (value : Except Fault String)
  | array (items : List Surface) (stop : Stop)
  | object (members : List (Except Fault String × Surface)) (stop : Stop)
  | broken (read skipped : Fault)
  | cut (read skipped : Fault)

/-- How an array or an object ends: with its bracket, with a fault, or, in an object, with
something other than a whole text in the place of a key. -/
inductive Stop
  | closed
  | broken (read skipped : Fault)
  | strayKey (key : Surface)

end

def isSpace (c : Char) : Bool :=
  c == ' ' || c == '\t' || c == '\n' || c == '\r'

def skipSpace (cs : List Char) : List Char :=
  cs.dropWhile isSpace

structure Parsed (α : Type) where
  part : α
  rest : Option (List Char)

def endedOr (cs : List Char) : Fault :=
  if cs.isEmpty then .ended else .malformed

/-- One of the three words of JSON, whose first letter has been read. -/
def word (letters : List Char) (value : Surface) (cs : List Char) : Parsed Surface :=
  match Text.dropPrefix? letters cs with
  | some rest => ⟨value,some rest⟩
  | none =>
    let fault := endedOr (cs.drop (letters.zip cs |>.takeWhile fun (a,b) => a == b).length)
    ⟨.cut fault fault,none⟩

def faultOf : Except Fault α → Fault
  | .error f => f
  | .ok _ => .malformed

def textSurface (cs : List Char) : Parsed Surface :=
  match skipText cs with
  | .ok rest => ⟨.text ((readText cs).map fun (ds,_) => String.ofList ds),some rest⟩
  | .error f => ⟨.broken (faultOf (readText cs)) f,none⟩

def numberSurface (cs : List Char) : Parsed Surface :=
  match scanNumeral cs with
  | .ok (n,rest) => ⟨.number n.value,some rest⟩
  | .error b => ⟨.cut b.read b.skipped,none⟩

def stopAt (cs : List Char) : Stop :=
  .broken (endedOr cs) (endedOr cs)

abbrev Content (α : Type) := Parsed (List α × Stop)

mutual

def readValue : Nat → List Char → Parsed Surface
  | 0,_ => ⟨.broken .ended .ended,none⟩
  | fuel + 1,cs =>
    match skipSpace cs with
    | [] => ⟨.broken .ended .ended,none⟩
    | 'n' :: cs => word ['u','l','l'] .null cs
    | 't' :: cs => word ['r','u','e'] (.bool true) cs
    | 'f' :: cs => word ['a','l','s','e'] (.bool false) cs
    | '"' :: cs => textSurface cs
    | '[' :: cs =>
      match skipSpace cs with
      | ']' :: rest => ⟨.array [] .closed,some rest⟩
      | [] => ⟨.array [] (.broken .ended .ended),none⟩
      | cs =>
        let r := readItems fuel cs
        ⟨.array r.part.1 r.part.2,r.rest⟩
    | '\x7b' :: cs =>
      match skipSpace cs with
      | '\x7d' :: rest => ⟨.object [] .closed,some rest⟩
      | cs =>
        let r := readMembers fuel cs
        ⟨.object r.part.1 r.part.2,r.rest⟩
    | c :: cs =>
      if c = '-' || (digit? c).isSome then numberSurface (c :: cs)
      else ⟨.broken .malformed .malformed,none⟩

def readItems : Nat → List Char → Content Surface
  | 0,_ => ⟨([],.broken .ended .ended),none⟩
  | fuel + 1,cs =>
    let item := readValue fuel cs
    match item.rest with
    | none => ⟨([item.part],.broken .ended .ended),none⟩
    | some rest =>
      match skipSpace rest with
      | ']' :: rest => ⟨([item.part],.closed),some rest⟩
      | ',' :: rest =>
        match skipSpace rest with
        | ']' :: _ => ⟨([item.part],.broken .malformed .malformed),none⟩
        | rest =>
          let r := readItems fuel rest
          ⟨(item.part :: r.part.1,r.part.2),r.rest⟩
      | rest => ⟨([item.part],stopAt rest),none⟩

/-- Reads a member and all that follow it in an object; blanks before the key have been skipped. -/
def readMembers : Nat → List Char → Content (Except Fault String × Surface)
  | 0,_ => ⟨([],.broken .ended .ended),none⟩
  | fuel + 1,cs =>
    match cs with
    | '"' :: cs =>
      match skipText cs with
      | .error f => ⟨([],.strayKey (.broken (faultOf (readText cs)) f)),none⟩
      | .ok rest =>
        let key := (readText cs).map fun (ds,_) => String.ofList ds
        match skipSpace rest with
        | ':' :: rest =>
          let value := readValue fuel rest
          match value.rest with
          | none => ⟨([(key,value.part)],.broken .ended .ended),none⟩
          | some rest =>
            match skipSpace rest with
            | '\x7d' :: rest => ⟨([(key,value.part)],.closed),some rest⟩
            | ',' :: rest =>
              match skipSpace rest with
              | '\x7d' :: _ => ⟨([(key,value.part)],.broken .malformed .malformed),none⟩
              | rest =>
                let r := readMembers fuel rest
                ⟨((key,value.part) :: r.part.1,r.part.2),r.rest⟩
            | rest => ⟨([(key,value.part)],stopAt rest),none⟩
        | rest => ⟨([(key,.broken (endedOr rest) (endedOr rest))],.broken .ended .ended),none⟩
    | cs => ⟨([],.strayKey (readValue fuel cs).part),none⟩

end

/-- A whole document: its value, and whether something other than blanks follows it. -/
structure Document where
  value : Surface
  trailing : Bool

/-- Each level of nesting takes two steps at most, so twice the length of the text is enough. -/
def Document.ofChars (cs : List Char) : Document :=
  let r := readValue (2 * cs.length + 2) cs
  ⟨r.part,match r.rest with | some rest => !(skipSpace rest).isEmpty | none => false⟩

def Document.ofText (s : String) : Document :=
  .ofChars s.toList

end EndpointAudit.Json
