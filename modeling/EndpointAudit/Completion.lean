import EndpointAudit.Finding
import EndpointAudit.Text.Search

namespace EndpointAudit.Completion

def fence : List Char := ['\x60','\x60','\x60']

def isAsciiLetter (c : Char) : Bool :=
  ('a' ≤ c && c ≤ 'z') || ('A' ≤ c && c ≤ 'Z')

def dropOne (c : Char) : List Char → List Char
  | d :: cs => if d = c then cs else d :: cs
  | [] => []

/-- What follows an opening fence: its language, blanks and one line break do not belong to the
block. -/
def afterOpening (cs : List Char) : List Char :=
  let cs := (cs.dropWhile isAsciiLetter).dropWhile fun c => c == ' ' || c == '\t'
  dropOne '\n' (dropOne '\r' cs)

def fencedBlock? (cs : List Char) : Option (List Char) :=
  match Text.splitFirst fence cs with
  | none => none
  | some (_,rest) => (Text.splitFirst fence (afterOpening rest)).map fun (body,_) => body

def payloadChars (cs : List Char) : List Char :=
  Text.trimChars ((fencedBlock? cs).getD cs)

/-- The part of a completion that should be JSON: the first fenced block or else the whole text,
without blanks at both ends. -/
def payload (completion : String) : String :=
  String.ofList (payloadChars completion.toList)

def object? (completion : String) : Option (List (String × Json)) :=
  match Json.parse (payload completion) with
  | .ok (.object members) => some members
  | _ => none

def verdictOf (members : List (String × Json)) : Verdict :=
  if (members.lookup "status").bind Json.asText? = some "success" then .success else .fail

def verdict (completion : String) : Verdict :=
  match object? completion with
  | some members => verdictOf members
  | none => .incomplete

def recommendationsOf (members : List (String × Json)) : List String :=
  ["recommendations","suggestions"].flatMap fun key =>
    (((members.lookup key).bind Json.asArray?).getD []).filterMap Json.asText?

def roundToHundredths (x : Float) : Float :=
  (x * 100.0).round / 100.0

def rate? (successes parsed : Nat) : Option Float :=
  if parsed = 0 then none
  else
    some (roundToHundredths (successes.toUInt64.toFloat / parsed.toUInt64.toFloat * 100.0))

/-- Completions that cannot be read count as collected only. -/
def tally (completions : List String) : Tally :=
  let verdicts := completions.map verdict
  let parsed := verdicts.countP (· != .incomplete)
  let successes := verdicts.count .success
  { collected := completions.length, parsed, successes, rate := rate? successes parsed }

end EndpointAudit.Completion
