import EndpointAudit.Error
import EndpointAudit.Text.Blank

namespace EndpointAudit

structure CodeSpan where
  path : String
  start : Nat
  stop : Nat
deriving DecidableEq, Repr

namespace CodeSpan

inductive Fault
  | noColon
  | emptyPath
  | noDash
  | noLetter (bound : String)
  | notAnInteger (bound : String)
  | negative (bound : String)
  | reversed
deriving DecidableEq, Repr

def Fault.reason : Fault → String
  | .noColon => "missing ':' between path and line range"
  | .emptyPath => "empty path"
  | .noDash => "line range must look like L<start>-L<end>"
  | .noLetter bound => "bound '" ++ bound ++ "' is missing the 'L' prefix"
  | .notAnInteger bound => "bound '" ++ bound ++ "' is not an integer"
  | .negative bound => "bound '" ++ bound ++ "' is negative"
  | .reversed => "start line is greater than end line"

def digitValue? (c : Char) : Option Nat :=
  if '0' ≤ c ∧ c ≤ '9' then some (c.toNat - 48) else none

def natOf? (cs : List Char) : Option Nat :=
  if cs.isEmpty then none
  else cs.foldlM (fun n c => (digitValue? c).map fun d => n * 10 + d) 0

/-- The largest signed number of 64 bits. -/
def maxInteger : Nat := 9223372036854775807

/-- An optional sign and digits, within the signed 64-bit range. -/
def integerOf? (cs : List Char) : Option Int :=
  match cs with
  | '-' :: ds => (natOf? ds).bind fun n => if n ≤ maxInteger + 1 then some (-(n : Int)) else none
  | '+' :: ds => (natOf? ds).bind fun n => if n ≤ maxInteger then some (n : Int) else none
  | ds => (natOf? ds).bind fun n => if n ≤ maxInteger then some (n : Int) else none

/-- A line number after the letter `L`; blanks around both do not count. -/
def boundOf (cs : List Char) : Except Fault Nat :=
  match Text.trimChars cs with
  | 'L' :: digits =>
    match integerOf? digits with
    | none => .error (.notAnInteger (String.ofList cs))
    | some n => if n < 0 then .error (.negative (String.ofList cs)) else .ok n.toNat
  | _ => .error (.noLetter (String.ofList cs))

def ofChars (cs : List Char) : Except Fault CodeSpan :=
  match Text.cutLast (· == ':') cs with
  | none => .error .noColon
  | some (path,range) =>
    if path.isEmpty then .error .emptyPath
    else
      match Text.cutFirst (· == '-') range with
      | none => .error .noDash
      | some (first,last) => do
        let start ← boundOf first
        let stop ← boundOf last
        if stop < start then .error .reversed
        else .ok ⟨String.ofList path,start,stop⟩

def parse (position : String) : Except Error CodeSpan :=
  (ofChars position.toList).mapError fun f => .spanFormat position f.reason

def length (s : CodeSpan) : Nat :=
  s.stop - s.start

def isEmpty (s : CodeSpan) : Bool :=
  s.start == s.stop

def toText (s : CodeSpan) : String :=
  s.path ++ ":L" ++ toString s.start ++ "-L" ++ toString s.stop

/-- The lines of the span, as far as the text has them, each with its terminator. -/
def cut (s : CodeSpan) (text : String) : String :=
  String.ofList (((Text.linesOf text.toList).drop s.start).take s.length).flatten

def extract (t : FileTree) (root position : String) : Except Error String := do
  let s ← parse position
  let path := Path.join root s.path
  if !t.pathExists path then .error (.spanMissing path)
  else
    let text ← (t.readText path).mapError (.io path)
    return s.cut text

end CodeSpan

end EndpointAudit
