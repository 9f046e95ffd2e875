import EndpointAudit.Text.Search

namespace EndpointAudit

structure Url where
  scheme : String
  authority : Option String
  path : String
  query : Option String
  fragment : Option String
deriving DecidableEq, Repr

namespace Url

def hostSchemes : List (String × Nat) :=
  [("http",80),("https",443),("ftp",21),("ws",80),("wss",443)]

def hasHost (scheme : String) : Bool :=
  (hostSchemes.lookup scheme).isSome

def upperHex (n : Nat) : Char :=
  if n < 10 then Char.ofNat (48 + n) else Char.ofNat (55 + n)

def encodeByte (b : UInt8) : List Char :=
  ['%',upperHex (b.toNat / 16),upperHex (b.toNat % 16)]

/-- Encodes the characters of a set and keeps all others. -/
def encode (inSet : Char → Bool) (cs : List Char) : String :=
  String.ofList (cs.flatMap fun c =>
    if inSet c then c.toString.toUTF8.toList.flatMap encodeByte else [c])

def isControl (c : Char) : Bool :=
  c.toNat < 0x20 || 0x7F ≤ c.toNat

def inFragmentSet (c : Char) : Bool :=
  isControl c || [' ','"','<','>','\x60'].contains c

def inPathSet (c : Char) : Bool :=
  inFragmentSet c || ['#','?','\x7b','\x7d'].contains c

def inQuerySet (c : Char) : Bool :=
  isControl c || [' ','"','#','<','>','\''].contains c

def isSchemeStart (c : Char) : Bool :=
  ('a' ≤ c && c ≤ 'z') || ('A' ≤ c && c ≤ 'Z')

def isSchemePart (c : Char) : Bool :=
  isSchemeStart c || ('0' ≤ c && c ≤ '9') || c == '+' || c == '-' || c == '.'

/-- The scheme in lower case, and what follows the colon. -/
def scheme? (cs : List Char) : Option (String × List Char) :=
  match Text.cutFirst (· == ':') cs with
  | some (c :: name,rest) =>
    if isSchemeStart c && name.all isSchemePart then
      some (String.ofList ((c :: name).map Char.toLower),rest)
    else none
  | _ => none

def isForbiddenInHost (c : Char) : Bool :=
  c.toNat ≤ 0x20 || c.toNat = 0x7F ||
    ['#','/','<','>','?','@','[','\\',']','^','|','%','\x60'].contains c

def digitsOf? (cs : List Char) : Option Nat :=
  cs.foldlM (fun n c => if '0' ≤ c ∧ c ≤ '9' then some (n * 10 + (c.toNat - 48)) else none) 0

/-- The host in lower case, with the port unless it is the usual one. -/
def authority? (usualPort : Option Nat) (cs : List Char) : Option String :=
  let (host,port) := (Text.cutLast (· == ':') cs).getD (cs,[])
  if host.isEmpty || host.any isForbiddenInHost then none
  else
    match digitsOf? port with
    | none => none
    | some n =>
      let name := String.ofList (host.map Char.toLower)
      if port.isEmpty || usualPort == some n then some name
      else if n < UInt16.size then some (name ++ ":" ++ toString n)
      else none

def isDot (segment : List Char) : Bool :=
  [".","%2e"].contains (String.ofList (segment.map Char.toLower))

def isDoubleDot (segment : List Char) : Bool :=
  ["..",".%2e","%2e.","%2e%2e"].contains (String.ofList (segment.map Char.toLower))

/-- Resolves the dot segments of a path, given the segments so far. A dot segment at the end leaves
an empty one. -/
def resolveDots (done : List (List Char)) : List (List Char) → List (List Char)
  | [] => done
  | segment :: rest =>
    let ending := if rest.isEmpty then [[]] else []
    if isDoubleDot segment then resolveDots (done.dropLast ++ ending) rest
    else if isDot segment then resolveDots (done ++ ending) rest
    else resolveDots (done ++ [segment]) rest

def pathText (isSlash : Char → Bool) (cs : List Char) : String :=
  let cs := match cs with
    | c :: rest => if isSlash c then rest else c :: rest
    | [] => []
  String.join ((resolveDots [] (cs.splitOnP isSlash)).map fun segment =>
    "/" ++ encode inPathSet segment)

def cutTail (mark : Char) (cs : List Char) : List Char × Option (List Char) :=
  match Text.cutFirst (· == mark) cs with
  | some (before,after) => (before,some after)
  | none => (cs,none)

def userless (cs : List Char) : List Char :=
  match Text.cutLast (· == '@') cs with
  | some (_,host) => host
  | none => cs

/-- The part after the scheme of an address with a host. -/
def ofHostPart? (scheme : String) (cs : List Char) (query fragment : Option String) : Option Url :=
  let isSlash c := c == '/' || c == '\\'
  let cs := cs.dropWhile isSlash
  let written := userless (cs.takeWhile fun c => !isSlash c)
  (authority? (hostSchemes.lookup scheme) written).map fun authority =>
    { scheme
      authority := some authority
      path := pathText isSlash (cs.dropWhile fun c => !isSlash c)
      query, fragment }

/-- The part after the scheme of any other address, which is kept but for control characters. -/
def ofOtherPart (scheme : String) (cs : List Char) (query fragment : Option String) : Url :=
  { scheme, authority := none, path := encode isControl cs, query, fragment }

/-- Blanks and controls around an address do not count, nor do line breaks in it. -/
def cleaned (cs : List Char) : List Char :=
  let outer c := decide (c.toNat ≤ 0x20)
  (((cs.dropWhile outer).reverse.dropWhile outer).reverse).filter fun c =>
    c != '\t' && c != '\n' && c != '\r'

def parse? (text : String) : Option Url := do
  let (scheme,rest) ← scheme? (cleaned text.toList)
  let (rest,fragment) := cutTail '#' rest
  let (rest,query) := cutTail '?' rest
  let fragment := fragment.map (encode inFragmentSet)
  let query := query.map (encode inQuerySet)
  if hasHost scheme then ofHostPart? scheme rest query fragment
  else some (ofOtherPart scheme rest query fragment)

def tailText (mark : String) : Option String → String
  | some tail => mark ++ tail
  | none => ""

/-- What a server is asked for: path and query. -/
def target (u : Url) : String :=
  u.path ++ tailText "?" u.query

def toText (u : Url) : String :=
  u.scheme ++ ":" ++ tailText "//" u.authority ++ u.target ++ tailText "#" u.fragment

end Url

end EndpointAudit
