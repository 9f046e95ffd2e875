import EndpointAudit.Text.Case.Table

namespace EndpointAudit.Text

namespace Case

def inRanges (ranges : List (Nat × Nat)) (c : Char) : Bool :=
  ranges.any fun (lo,hi) => lo ≤ c.toNat && c.toNat ≤ hi

def isCased (c : Char) : Bool :=
  inRanges casedRanges c

def isIgnorable (c : Char) : Bool :=
  inRanges ignorableRanges c

def image? (runs : List (Nat × Nat × Nat × Nat)) (n : Nat) : Option Nat :=
  runs.findSome? fun (lo,hi,step,target) =>
    if lo ≤ n ∧ n ≤ hi ∧ (n - lo) % step = 0 then some (target + (n - lo)) else none

def mapChar (runs : List (Nat × Nat × Nat × Nat)) (special : List (Nat × List Nat)) (c : Char) :
    List Char :=
  match special.lookup c.toNat with
  | some ns => ns.map Char.ofNat
  | none =>
    match image? runs c.toNat with
    | some n => [Char.ofNat n]
    | none => [c]

def lowerChar (c : Char) : List Char :=
  mapChar lowerRuns lowerSpecial c

def upperChar (c : Char) : List Char :=
  mapChar upperRuns upperSpecial c

/-- Whether the first character that is not ignorable is a cased one. -/
def startsCased (cs : List Char) : Bool :=
  match cs.dropWhile isIgnorable with
  | [] => false
  | c :: _ => isCased c

def capitalSigma : Char := 'Σ'

/-- Lower case from left to right; `before` holds the characters already passed, nearest first. -/
def lowerFrom (before : List Char) : List Char → List Char
  | [] => []
  | c :: cs =>
    let image :=
      if c = capitalSigma then
        if startsCased before && !startsCased cs then ['ς'] else ['σ']
      else lowerChar c
    image ++ lowerFrom (c :: before) cs

end Case

def lower (s : String) : String :=
  String.ofList (Case.lowerFrom [] s.toList)

def upper (s : String) : String :=
  String.ofList (s.toList.flatMap Case.upperChar)

end EndpointAudit.Text
